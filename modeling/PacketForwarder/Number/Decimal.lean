/-
Decimal numbers as they are written: a sign, a natural number and a power of ten. `toBinary` gives the
nearest number of a binary format, and the two readers below read decimal digits and the decimal text of
an option value.
-/
import PacketForwarder.Number.Binary

namespace PacketForwarder

/-- `± digits * 10 ^ exponent` -/
structure Decimal where
  negative : Bool
  digits : Nat
  exponent : Int
  deriving DecidableEq

namespace Decimal

/-- the power of ten just above the magnitude -/
def magnitude (d : Decimal) : Int := (Nat.toDigits 10 d.digits).length + d.exponent

/-- A power of ten that no finite magnitude of the format reaches, and whose inverse is below half the
least one. -/
def reach (f : BinaryFormat) : Int := f.precision + f.maxExp.natAbs + f.minExp.natAbs

/-- The nearest number of the format, which every text of a number is assumed to be read as. Magnitudes far
outside of the format need no power of ten. -/
def toBinary (f : BinaryFormat) (d : Decimal) : Binary f :=
  if d.digits = 0 then .round f d.negative 0 1
  else if reach f < d.magnitude then .infinite d.negative
  else if d.magnitude < -reach f then .round f d.negative 0 1
  else .round f d.negative (d.digits * tenPow d.exponent.toNat) (tenPow (-d.exponent).toNat)

/-- the digits at the front of a text, and the rest -/
def spanDigits (cs : List Char) : List Char × List Char := cs.span Char.isDigit

/-- the number that a run of decimal digits spells -/
def ofDigits (ds : List Char) : Nat := Nat.ofDigitChars 10 ds 0

/-- A run of decimal digits, at least one, whose number is at most `max`. -/
def natUpTo? (max : Nat) (ds : List Char) : Option Nat :=
  if ds.isEmpty || !ds.all Char.isDigit then none
  else if ofDigits ds ≤ max then some (ofDigits ds) else none

/-- `e`, an optional sign and digits, to the end of the text -/
def exponent? : List Char → Option Int
  | [] => some 0
  | c :: cs =>
    if c = 'e' ∨ c = 'E' then
      let (negative, ds) := match cs with
        | '-' :: ds => (true, ds)
        | '+' :: ds => (false, ds)
        | ds => (false, ds)
      if ds.isEmpty || !ds.all Char.isDigit then none
      else some (if negative then -(ofDigits ds : Int) else ofDigits ds)
    else none

/-- Digits with at most one point among them, at least one digit, and an optional exponent. -/
def unsigned? (negative : Bool) (cs : List Char) : Option Decimal :=
  let (whole, rest) := spanDigits cs
  let (fraction, rest) := match rest with
    | '.' :: rest => spanDigits rest
    | rest => ([], rest)
  if whole.isEmpty && fraction.isEmpty then none
  else (exponent? rest).map fun e => ⟨negative, ofDigits (whole ++ fraction), e - fraction.length⟩

end Decimal

namespace Binary

/-- The text of a number in an option: an optional sign, then `inf`, `infinity` or `nan` in any case, or
a decimal number. -/
def ofText? (f : BinaryFormat) (text : String) : Option (Binary f) :=
  let (negative, cs) := match text.toList with
    | '-' :: cs => (true, cs)
    | '+' :: cs => (false, cs)
    | cs => (false, cs)
  let word := String.ofList (cs.map Char.toLower)
  if word = "inf" ∨ word = "infinity" then some (.infinite negative)
  else if word = "nan" then some .nan
  else (Decimal.unsigned? negative cs).map (Decimal.toBinary f)

end Binary

end PacketForwarder
