/-
The shortest decimal text that reads back as the same binary number. The reals that round to a number
are an interval around it, with its ends when the mantissa is even. For one digit, two digits and so on,
the two neighbours of the number on that decimal grid are tried; the first grid with a neighbour in the
interval wins, and of two neighbours the nearer. `FloatStyle` says how the digits are laid out.
-/
import PacketForwarder.Number.Fixed

namespace PacketForwarder

/-- significant digits, without zeros at the end, and the place of the first: `0.d₁d₂… * 10 ^ point` -/
structure Significand where
  digits : List Char
  point : Int
  deriving DecidableEq

/-- which of two equally near neighbours is taken -/
inductive TieRule where
  | toEven
  | up
  deriving DecidableEq

namespace BinaryNumber

variable {f : BinaryFormat}

/-- The interval of the reals that round to the magnitude of a number, in quarters of its last bit: half
a bit on each side, but a quarter below where the next number down has a finer last bit. -/
def quarters (x : BinaryNumber f) : Nat × Nat :=
  let narrow := x.mantissa = twoPow (f.precision - 1) ∧ f.minExp < x.exponent
  (4 * x.mantissa - (if narrow then 1 else 2), 4 * x.mantissa + 2)

/-- does `n / d` round to the magnitude of the number? -/
def covers (x : BinaryNumber f) (n d : Nat) : Bool :=
  let (low, high) := x.quarters
  let value := 4 * n * twoPow (-x.exponent).toNat
  let unit := d * twoPow x.exponent.toNat
  if x.mantissa % 2 = 0 then low * unit ≤ value && value ≤ high * unit
  else low * unit < value && value < high * unit

/-- the power of ten of the leading digit of `n / d` -/
def leadingPower (n d : Nat) : Int :=
  let guess : Int := (Nat.toDigits 10 n).length - (Nat.toDigits 10 d).length
  if n * tenPow (-guess).toNat < d * tenPow guess.toNat then guess - 1 else guess

/-- `k * 10 ^ e` as a fraction of naturals -/
def onGrid (k : Nat) (e : Int) : Nat × Nat := (k * tenPow e.toNat, tenPow (-e).toNat)

/-- The neighbour of the magnitude on the grid of `10 ^ e` that reads back, and of two the nearer. -/
def nearestOnGrid (tie : TieRule) (x : BinaryNumber f) (e : Int) : Option Nat :=
  let n := x.num * tenPow (-e).toNat
  let d := x.den * tenPow e.toNat
  let k := n / d
  let reads (k : Nat) : Bool := x.covers (onGrid k e).1 (onGrid k e).2
  let rest := 2 * (n % d)
  let upIsNearer := d < rest ∨ (rest = d ∧ (tie = .up ∨ k % 2 = 1))
  match reads k, reads (k + 1) with
  | true, true => some (if upIsNearer then k + 1 else k)
  | true, false => some k
  | false, true => some (k + 1)
  | false, false => none

/-- digits enough for every number of a format of at most 53 bits to be read back -/
def mostDigits : Nat := 17

/-- the shortest digits of a number other than zero -/
def shortest (tie : TieRule) (x : BinaryNumber f) : Significand :=
  let top := leadingPower x.num x.den
  let grid (count : Nat) : Int := top - count
  let found := (List.range mostDigits).findSome? fun count =>
    (nearestOnGrid tie x (grid count)).map fun k => (k, grid count)
  let (k, e) := found.getD (x.num * tenPow (-grid mostDigits).toNat / (x.den * tenPow (grid mostDigits).toNat),
    grid mostDigits)
  let ds := Nat.toDigits 10 k
  ⟨(ds.reverse.dropWhile (· = '0')).reverse, e + ds.length⟩

end BinaryNumber

/-- how the shortest digits of a number become text -/
structure FloatStyle where
  /-- the least power of ten of a leading digit that is written without an exponent -/
  minPower : Int
  /-- the first power of ten that is written with an exponent -/
  maxPower : Int
  /-- written between `e` and an exponent that is not negative -/
  plus : String
  tie : TieRule
  deriving DecidableEq

namespace FloatStyle

/-- digits and point without an exponent, with at least one digit on either side of the point -/
def plain (s : Significand) : String :=
  let count := s.digits.length
  if s.point ≤ 0 then
    "0." ++ String.ofList (List.replicate (-s.point).toNat '0' ++ s.digits)
  else if s.point.toNat < count then
    String.ofList (s.digits.take s.point.toNat) ++ "." ++ String.ofList (s.digits.drop s.point.toNat)
  else
    String.ofList (s.digits ++ List.replicate (s.point.toNat - count) '0') ++ ".0"

/-- the leading digit, the others after a point, and the exponent -/
def scientific (style : FloatStyle) (s : Significand) : String :=
  let power := s.point - 1
  let others := s.digits.drop 1
  String.ofList (s.digits.take 1) ++ (if others.isEmpty then "" else "." ++ String.ofList others) ++
    "e" ++ (if power < 0 then "" else style.plus) ++ toString power

/-- the text of a finite number -/
def number {f : BinaryFormat} (style : FloatStyle) (x : BinaryNumber f) : String :=
  (if x.negative then "-" else "") ++
    if x.mantissa = 0 then "0.0"
    else
      let s := x.shortest style.tie
      if style.minPower ≤ s.point - 1 ∧ s.point - 1 < style.maxPower then plain s
      else scientific style s

/-- the text of any value -/
def value {f : BinaryFormat} (style : FloatStyle) : Binary f → String
  | .finite x => style.number x
  | .infinite s => Binary.infiniteText s
  | .nan => Binary.nanText

end FloatStyle

end PacketForwarder
