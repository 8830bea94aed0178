/-
The text of a number with a fixed count of decimal places. The exact value is rounded to the last
place, a half going to the even digit; the sign is kept, also on a zero.
-/
import PacketForwarder.Number.Binary

namespace PacketForwarder

/-- the decimal digits of a natural number, with zeros in front up to a width -/
def zeroPadded (width n : Nat) : String :=
  let ds := Nat.toDigits 10 n
  String.ofList (List.replicate (width - ds.length) '0' ++ ds)

/-- a whole number of units of the last place, with the point set -/
def placePoint (places units : Nat) : String :=
  if places = 0 then toString units
  else toString (units / tenPow places) ++ "." ++ zeroPadded places (units % tenPow places)

namespace Binary

variable {f : BinaryFormat}

/-- what stands for the values that have no digits -/
def nanText : String := "NaN"

@[inherit_doc nanText] def infiniteText (negative : Bool) : String := if negative then "-inf" else "inf"

/-- the number with `places` decimal places -/
def fixed (places : Nat) : Binary f → String
  | .finite x =>
    (if x.negative then "-" else "") ++ placePoint places (roundHalfEven (x.num * tenPow places) x.den)
  | .infinite s => infiniteText s
  | .nan => nanText

end Binary

end PacketForwarder
