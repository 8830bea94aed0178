/-
Binary floating point in exact arithmetic. A finite number is a sign, a mantissa and the exponent of
its last bit; `fits` says that the format holds it in its one normal form. Every operation takes the
exact rational result and rounds it once, to the nearest number of the format with ties to the even
mantissa (`Binary.round`).
-/

namespace PacketForwarder

/-- a power of two -/
def twoPow (n : Nat) : Nat := Nat.pow 2 n

/-- a power of ten -/
def tenPow (n : Nat) : Nat := Nat.pow 10 n

/-- how many bits a mantissa has, and which exponents its last bit may have -/
structure BinaryFormat where
  precision : Nat
  minExp : Int
  maxExp : Int
  deriving DecidableEq

namespace BinaryFormat

/-- 64 bits wide: 53 bits of mantissa -/
def double : BinaryFormat := ⟨53, -1074, 971⟩

/-- 32 bits wide: 24 bits of mantissa -/
def single : BinaryFormat := ⟨24, -149, 104⟩

/-- the normal form: a full mantissa, or the least exponent -/
def Fits (f : BinaryFormat) (mantissa : Nat) (exponent : Int) : Prop :=
  mantissa < twoPow f.precision ∧ f.minExp ≤ exponent ∧ exponent ≤ f.maxExp ∧
    (exponent = f.minExp ∨ twoPow (f.precision - 1) ≤ mantissa)

instance (f : BinaryFormat) (m : Nat) (e : Int) : Decidable (f.Fits m e) := by
  unfold Fits; infer_instance

end BinaryFormat

/-- a finite number of the format: `± mantissa * 2 ^ exponent`; zero keeps its sign -/
structure BinaryNumber (f : BinaryFormat) where
  negative : Bool
  mantissa : Nat
  exponent : Int
  fits : f.Fits mantissa exponent
  deriving DecidableEq

/-- a value of the format -/
inductive Binary (f : BinaryFormat) where
  | finite (x : BinaryNumber f)
  | infinite (negative : Bool)
  | nan
  deriving DecidableEq

abbrev Double := Binary .double

abbrev Single := Binary .single

/-- the quotient, with its fraction rounded to nearest and a half going to the even neighbour -/
def roundHalfEven (num den : Nat) : Nat :=
  let q := num / den
  let r := num % den
  if den < 2 * r ∨ (2 * r = den ∧ q % 2 = 1) then q + 1 else q

/-- the quotient, with its fraction rounded to nearest and a half going up -/
def roundHalfUp (num den : Nat) : Nat := (2 * num + den) / (2 * den)

namespace BinaryNumber

variable {f : BinaryFormat}

/-- the magnitude as a fraction of naturals -/
def num (x : BinaryNumber f) : Nat := x.mantissa * twoPow x.exponent.toNat

@[inherit_doc num] def den (x : BinaryNumber f) : Nat := twoPow (-x.exponent).toNat

theorem den_pos (x : BinaryNumber f) : 0 < x.den := Nat.two_pow_pos _

/-- the numerator with its sign -/
def signedNum (x : BinaryNumber f) : Int := if x.negative then -(x.num : Int) else x.num

end BinaryNumber

namespace Binary

variable {f : BinaryFormat}

/-- the number with these parts, or infinity where the exponent is too large for the format -/
def ofParts (f : BinaryFormat) (negative : Bool) (mantissa : Nat) (exponent : Int) : Binary f :=
  if h : f.Fits mantissa exponent then .finite ⟨negative, mantissa, exponent, h⟩
  else .infinite negative

/-- `num / den / 2 ^ e` as a fraction of naturals -/
def unscale (num den : Nat) (e : Int) : Nat × Nat :=
  (num * twoPow (-e).toNat, den * twoPow e.toNat)

/-- The exponent of the last bit of `num / den`: the one that gives a full mantissa, unless it is
below the least exponent of the format. -/
def lastBit (f : BinaryFormat) (num den : Nat) : Int :=
  let e : Int := (num.log2 : Int) - den.log2 - (f.precision - 1 : Nat)
  let (n, d) := unscale num den e
  max f.minExp (if n < d * twoPow (f.precision - 1) then e - 1 else e)

/-- The number of the format nearest to `± num / den`, with ties to the even mantissa. -/
def round (f : BinaryFormat) (negative : Bool) (num den : Nat) : Binary f :=
  if num = 0 then ofParts f negative 0 f.minExp
  else
    let e := lastBit f num den
    let (n, d) := unscale num den e
    let m := roundHalfEven n d
    if m = twoPow f.precision then ofParts f negative (twoPow (f.precision - 1)) (e + 1)
    else ofParts f negative m e

/-- the nearest number to an integer -/
def ofInt (f : BinaryFormat) (n : Int) : Binary f := round f (n < 0) n.natAbs 1

def zero (f : BinaryFormat) : Binary f := round f false 0 1

/-- the same number, rounded once, in another format -/
def convert (g : BinaryFormat) : Binary f → Binary g
  | .finite x => round g x.negative x.num x.den
  | .infinite s => .infinite s
  | .nan => .nan

def isNegative : Binary f → Bool
  | .finite x => x.negative
  | .infinite s => s
  | .nan => false

def abs : Binary f → Binary f
  | .finite x => .finite { x with negative := false }
  | .infinite _ => .infinite false
  | .nan => .nan

def mul : Binary f → Binary f → Binary f
  | .finite x, .finite y => round f (x.negative != y.negative) (x.num * y.num) (x.den * y.den)
  | .nan, _ => .nan
  | _, .nan => .nan
  | .infinite s, .infinite t => .infinite (s != t)
  | .infinite s, .finite y => if y.mantissa = 0 then .nan else .infinite (s != y.negative)
  | .finite x, .infinite t => if x.mantissa = 0 then .nan else .infinite (x.negative != t)

def div : Binary f → Binary f → Binary f
  | .finite x, .finite y =>
    if y.mantissa = 0 then
      if x.mantissa = 0 then .nan else .infinite (x.negative != y.negative)
    else round f (x.negative != y.negative) (x.num * y.den) (x.den * y.num)
  | .nan, _ => .nan
  | _, .nan => .nan
  | .infinite _, .infinite _ => .nan
  | .infinite s, .finite y => .infinite (s != y.negative)
  | .finite x, .infinite t => round f (x.negative != t) 0 1

/-- The difference; an exact zero is negative only for `-0 - 0`. -/
def sub : Binary f → Binary f → Binary f
  | .finite x, .finite y =>
    let n := x.signedNum * y.den - y.signedNum * x.den
    if n = 0 then round f (x.negative && !y.negative) 0 1
    else round f (n < 0) n.natAbs (x.den * y.den)
  | .nan, _ => .nan
  | _, .nan => .nan
  | .infinite s, .infinite t => if s = t then .nan else .infinite s
  | .infinite s, .finite _ => .infinite s
  | .finite _, .infinite t => .infinite (!t)

/-- the order of the numbers; a NaN is below nothing, and the two zeros are equal -/
def lt : Binary f → Binary f → Bool
  | .finite x, .finite y => x.signedNum * y.den < y.signedNum * x.den
  | .nan, _ => false
  | _, .nan => false
  | .infinite s, .infinite t => s && !t
  | .infinite s, .finite _ => s
  | .finite _, .infinite t => !t

/-- the nearest whole number, a half going away from zero -/
def nearestWhole : Binary f → Binary f
  | .finite x => round f x.negative (roundHalfUp x.num x.den) 1
  | x => x

/-- the whole part: the fraction is dropped -/
def whole : Binary f → Binary f
  | .finite x => round f x.negative (x.num / x.den) 1
  | x => x

/-- The whole part as a natural number clamped to `0 .. max`; a NaN gives zero. -/
def clamp (max : Nat) : Binary f → Nat
  | .finite x => if x.negative then 0 else min (x.num / x.den) max
  | .infinite s => if s then 0 else max
  | .nan => 0

end Binary

end PacketForwarder
