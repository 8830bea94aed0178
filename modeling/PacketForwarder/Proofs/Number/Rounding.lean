/-
What rounding to a binary format does to the exact value. The fractions of naturals that the operations round
are read as rationals here, so that a bound is a chain of inequalities between rationals.

`halfEven` and `roundRat` are `roundHalfEven` and `Binary.round` as functions of the rational alone.

- `round_eq`: the exponent that `Binary.lastBit` estimates by bit lengths and mends once is that of the binary
  logarithm, so `Binary.round` depends on its fraction only through the rational.
- `roundRat_finite`: below the range of the format the result is finite, has the sign asked for, and its magnitude
  is the nearest whole number of last bits (`nearest`).
- `nearest_error`: the error is at most half a last bit, relative to the value, or half the least last bit.
- `nearest_exact`: a value that the format holds is not changed.
-/
import Mathlib.Tactic
import Mathlib.Data.Int.Log
import Mathlib.Data.Rat.Floor
import Mathlib.Algebra.Order.Floor.Semifield
import PacketForwarder.Number.Fixed

namespace PacketForwarder

/-! ## Powers and quotients -/

@[simp]
theorem twoPow_cast (n : Nat) : ((twoPow n : Nat) : ℚ) = 2 ^ n := by
  have h : twoPow n = 2 ^ n := rfl
  rw [h]
  push_cast
  rfl

@[simp]
theorem tenPow_cast (n : Nat) : ((tenPow n : Nat) : ℚ) = 10 ^ n := by
  have h : tenPow n = 10 ^ n := rfl
  rw [h]
  push_cast
  rfl

theorem twoPow_pos (n : Nat) : 0 < twoPow n := Nat.two_pow_pos n

theorem tenPow_pos (n : Nat) : 0 < tenPow n := Nat.pow_pos (by norm_num)

/-- whole powers on either side of a fraction make one power with a sign -/
theorem toNat_zpow (a : ℚ) (e : Int) : a ^ e.toNat / a ^ (-e).toNat = a ^ e := by
  rcases le_total 0 e with h | h
  · obtain ⟨n, rfl⟩ := Int.eq_ofNat_of_zero_le h
    simp
  · obtain ⟨n, hn⟩ := Int.eq_ofNat_of_zero_le (Int.neg_nonneg_of_nonpos h)
    obtain rfl : e = -(n : Int) := by omega
    simp

/-! ## The nearest whole number -/

/-- the natural number nearest to a rational, a half going to the even one -/
def halfEven (q : ℚ) : Nat :=
  let k := ⌊q⌋₊
  if 1 / 2 < q - k ∨ (q - k = 1 / 2 ∧ k % 2 = 1) then k + 1 else k

/-- The quotient, its remainder and a half of the divisor decide the rounding, and so does the rational. -/
theorem roundHalfEven_eq {num den : Nat} (h : 0 < den) : roundHalfEven num den = halfEven (num / den) := by
  have hd : (0 : ℚ) < den := by exact_mod_cast h
  have hk : ⌊(num : ℚ) / den⌋₊ = num / den := Nat.floor_div_eq_div num den
  have hq : (num : ℚ) / den - (num / den : Nat) = (num % den : Nat) / den := by
    have hm : ((num / den * den + num % den : Nat) : ℚ) = num := by rw [Nat.div_add_mod']
    push_cast at hm
    field_simp
    linarith
  have hlt : (1 : ℚ) / 2 < (num % den : Nat) / den ↔ den < 2 * (num % den) := by
    rw [lt_div_iff₀ hd, ← Nat.cast_lt (α := ℚ)]
    push_cast
    constructor <;> intro h <;> linarith
  have heq : ((num % den : Nat) : ℚ) / den = 1 / 2 ↔ 2 * (num % den) = den := by
    rw [div_eq_iff hd.ne', ← Nat.cast_inj (R := ℚ)]
    push_cast
    constructor <;> intro h <;> linarith
  simp only [roundHalfEven, halfEven, hk, hq, hlt, heq]

theorem halfEven_error {q : ℚ} (h : 0 ≤ q) : |(halfEven q : ℚ) - q| ≤ 1 / 2 := by
  have hlo := Nat.floor_le h
  have hhi := Nat.lt_floor_add_one q
  unfold halfEven
  dsimp only
  split_ifs with hup
  · push_cast
    rw [abs_le]
    rcases hup with hup | ⟨hup, -⟩ <;> constructor <;> linarith
  · rw [not_or] at hup
    rw [abs_le]
    refine ⟨?_, ?_⟩
    · have := not_lt.1 hup.1
      linarith
    · linarith

theorem halfEven_near {q : ℚ} {n : Nat} (hq : 0 ≤ q) (h : |q - n| < 1 / 2) : halfEven q = n := by
  have he := abs_le.1 (halfEven_error hq)
  have hn := abs_lt.1 h
  have h1 : (halfEven q : ℚ) < n + 1 := by linarith
  have h2 : (n : ℚ) < halfEven q + 1 := by linarith
  have h1' : halfEven q < n + 1 := by exact_mod_cast h1
  have h2' : n < halfEven q + 1 := by exact_mod_cast h2
  omega

theorem halfEven_natCast (n : Nat) : halfEven n = n := halfEven_near (Nat.cast_nonneg n) (by simp)

/-- the nearest whole number, and of two the even one -/
def IsNearest (q : ℚ) (n : Nat) : Prop := |q - n| < 1 / 2 ∨ |q - n| = 1 / 2 ∧ n % 2 = 0

theorem halfEven_isNearest {q : ℚ} (h : 0 ≤ q) : IsNearest q (halfEven q) := by
  have hlo := Nat.floor_le h
  have hhi := Nat.lt_floor_add_one q
  unfold IsNearest halfEven
  dsimp only
  split_ifs with hup
  · have hdist : |q - (⌊q⌋₊ + 1 : Nat)| = 1 - (q - ⌊q⌋₊) := by
      rw [abs_sub_comm, abs_of_nonneg (by push_cast; linarith)]
      push_cast
      ring
    rw [hdist]
    rcases hup with hup | ⟨hup, hodd⟩
    · exact Or.inl (by linarith)
    · exact Or.inr ⟨by linarith, by omega⟩
  · rw [not_or, not_lt, not_and'] at hup
    rw [abs_of_nonneg (sub_nonneg.2 hlo)]
    rcases lt_or_eq_of_le hup.1 with hlt | heq
    · exact Or.inl hlt
    · have heven : ⌊q⌋₊ % 2 ≠ 1 := fun hodd => hup.2 hodd heq
      exact Or.inr ⟨heq, by omega⟩

/-- a half goes up -/
theorem roundHalfUp_eq {num den : Nat} (hd : 0 < den) : roundHalfUp num den = ⌊(num / den : ℚ) + 1 / 2⌋₊ := by
  have hden : (0 : ℚ) < den := by exact_mod_cast hd
  unfold roundHalfUp
  rw [← Nat.floor_div_eq_div (K := ℚ)]
  congr 1
  push_cast
  field_simp

theorem roundHalfUp_near {num den n : Nat} (hd : 0 < den) (h : |(num : ℚ) / den - n| < 1 / 2) :
    roundHalfUp num den = n := by
  have h0 : (0 : ℚ) ≤ num / den := by positivity
  obtain ⟨hlo, hhi⟩ := abs_lt.1 h
  rw [roundHalfUp_eq hd, Nat.floor_eq_iff (by linarith)]
  constructor <;> linarith

/-! ## The place of the last bit -/

theorem two_zpow_pos (e : Int) : (0 : ℚ) < 2 ^ e := zpow_pos (by norm_num) e

namespace Binary

/-- the exponent of the last bit of a rational: a full mantissa, unless that is below the least exponent -/
def lastBitRat (f : BinaryFormat) (q : ℚ) : Int := max f.minExp (Int.log 2 q - (f.precision - 1 : Nat))

theorem unscale_div (num den : Nat) (e : Int) :
    ((unscale num den e).1 : ℚ) / (unscale num den e).2 = num / den / 2 ^ e := by
  simp only [unscale]
  push_cast
  rw [twoPow_cast, twoPow_cast, ← toNat_zpow 2 e]
  field_simp

/-- the bit lengths of numerator and denominator place the quotient within a factor of two -/
theorem quotient_bounds {num den : Nat} (hn : 0 < num) (hd : 0 < den) :
    (2 : ℚ) ^ ((num.log2 : Int) - den.log2 - 1) < num / den ∧
      (num : ℚ) / den < 2 ^ ((num.log2 : Int) - den.log2 + 1) := by
  have hden : (0 : ℚ) < den := by exact_mod_cast hd
  have n1 : ((2 ^ num.log2 : Nat) : ℚ) ≤ num := by exact_mod_cast Nat.log2_self_le hn.ne'
  have n2 : (num : ℚ) < (2 ^ (num.log2 + 1) : Nat) := by exact_mod_cast Nat.lt_log2_self
  have d1 : ((2 ^ den.log2 : Nat) : ℚ) ≤ den := by exact_mod_cast Nat.log2_self_le hd.ne'
  have d2 : (den : ℚ) < (2 ^ (den.log2 + 1) : Nat) := by exact_mod_cast Nat.lt_log2_self
  push_cast at n1 n2 d1 d2
  have hz : (2 : ℚ) ≠ 0 := by norm_num
  refine ⟨?_, ?_⟩
  · rw [lt_div_iff₀ hden]
    calc (2 : ℚ) ^ ((num.log2 : Int) - den.log2 - 1) * den
        < 2 ^ ((num.log2 : Int) - den.log2 - 1) * 2 ^ (den.log2 + 1) := by
          have := two_zpow_pos ((num.log2 : Int) - den.log2 - 1)
          gcongr
      _ = 2 ^ num.log2 := by
          rw [← zpow_natCast, ← zpow_natCast, ← zpow_add₀ hz]
          congr 1
          push_cast
          ring
      _ ≤ num := n1
  · rw [div_lt_iff₀ hden]
    calc (num : ℚ) < 2 ^ (num.log2 + 1) := n2
      _ = 2 ^ ((num.log2 : Int) - den.log2 + 1) * 2 ^ den.log2 := by
          rw [← zpow_natCast, ← zpow_natCast, ← zpow_add₀ hz]
          congr 1
          push_cast
          ring
      _ ≤ 2 ^ ((num.log2 : Int) - den.log2 + 1) * den := by
          have := two_zpow_pos ((num.log2 : Int) - den.log2 + 1)
          gcongr

/-- an exponent that traps a rational between two powers of two is its logarithm -/
theorem log_eq {q : ℚ} {e : Int} (h1 : (2 : ℚ) ^ e ≤ q) (h2 : q < 2 ^ (e + 1)) : Int.log 2 q = e := by
  have hq : 0 < q := lt_of_lt_of_le (two_zpow_pos e) h1
  have l1 := (Int.zpow_le_iff_le_log (b := 2) (by norm_num) hq).1 (by exact_mod_cast h1)
  have l2 := (Int.lt_zpow_iff_log_lt (b := 2) (by norm_num) hq).1 (by exact_mod_cast h2)
  omega

/-- The estimate by bit lengths is mended once, and that is enough. -/
theorem lastBit_eq (f : BinaryFormat) {num den : Nat} (hn : 0 < num) (hd : 0 < den) :
    lastBit f num den = lastBitRat f (num / den) := by
  have hden : (0 : ℚ) < den := by exact_mod_cast hd
  obtain ⟨b1, b2⟩ := quotient_bounds hn hd
  set k : Int := (num.log2 : Int) - den.log2 with hk
  set w : Nat := f.precision - 1
  have hcond : (unscale num den (k - w)).1 < (unscale num den (k - w)).2 * twoPow w ↔
      (num : ℚ) / den < 2 ^ k := by
    have hu := unscale_div num den (k - w)
    have hpos : (0 : ℚ) < (unscale num den (k - w)).2 := by
      simp only [unscale]
      exact_mod_cast Nat.mul_pos hd (twoPow_pos _)
    have hp := two_zpow_pos (k - w)
    rw [← Nat.cast_lt (α := ℚ)]
    push_cast
    rw [twoPow_cast, mul_comm, ← div_lt_iff₀ hpos, hu, div_lt_iff₀ hp, ← zpow_natCast,
      ← zpow_add₀ (by norm_num : (2 : ℚ) ≠ 0)]
    congr! 2
    ring
  have hlog : Int.log 2 ((num : ℚ) / den) = if (num : ℚ) / den < 2 ^ k then k - 1 else k := by
    split_ifs with h
    · exact log_eq b1.le (by rwa [sub_add_cancel])
    · exact log_eq (not_lt.1 h) b2
  unfold lastBit lastBitRat
  simp only [← hk, hlog]
  change max f.minExp (if (unscale num den (k - w)).1 < (unscale num den (k - w)).2 * twoPow w then _ else _) = _
  simp only [hcond]
  split_ifs with h
  · congr 1
    ring
  · rfl

/-! ## Rounding -/

/-- the number of the format nearest to a rational with a sign, ties to the even mantissa -/
def roundRat (f : BinaryFormat) (negative : Bool) (q : ℚ) : Binary f :=
  if q = 0 then ofParts f negative 0 f.minExp
  else
    let e := lastBitRat f q
    let m := halfEven (q / 2 ^ e)
    if m = twoPow f.precision then ofParts f negative (twoPow (f.precision - 1)) (e + 1)
    else ofParts f negative m e

/-- Rounding a fraction depends on its rational only. -/
theorem round_eq (f : BinaryFormat) (negative : Bool) (num : Nat) {den : Nat} (hd : 0 < den) :
    round f negative num den = roundRat f negative (num / den) := by
  have hden : (0 : ℚ) < den := by exact_mod_cast hd
  unfold round roundRat
  rcases Nat.eq_zero_or_pos num with rfl | hn
  · simp
  · have hnum : (0 : ℚ) < num := by exact_mod_cast hn
    have hq : (num : ℚ) / den ≠ 0 := (div_pos hnum hden).ne'
    have hu : 0 < (unscale num den (lastBitRat f (num / den))).2 := Nat.mul_pos hd (twoPow_pos _)
    simp only [hn.ne', hq, if_false, lastBit_eq f hn hd, roundHalfEven_eq hu, unscale_div]

end Binary

/-! ## Exact values -/

/-- a format with a mantissa and more than one exponent -/
def BinaryFormat.Proper (f : BinaryFormat) : Prop := 0 < f.precision ∧ f.minExp < f.maxExp

theorem double_proper : BinaryFormat.double.Proper := ⟨by decide, by decide⟩

namespace BinaryNumber

variable {f : BinaryFormat}

/-- the exact value without the sign -/
def magnitude (x : BinaryNumber f) : ℚ := x.mantissa * 2 ^ x.exponent

/-- the exact value -/
def value (x : BinaryNumber f) : ℚ := if x.negative then -x.magnitude else x.magnitude

theorem magnitude_nonneg (x : BinaryNumber f) : 0 ≤ x.magnitude :=
  mul_nonneg (Nat.cast_nonneg _) (two_zpow_pos _).le

theorem den_cast_pos (x : BinaryNumber f) : (0 : ℚ) < x.den := by exact_mod_cast x.den_pos

theorem num_div_den (x : BinaryNumber f) : (x.num : ℚ) / x.den = x.magnitude := by
  unfold num den magnitude
  push_cast
  rw [twoPow_cast, twoPow_cast, mul_div_assoc, toNat_zpow]

theorem signedNum_div_den (x : BinaryNumber f) : (x.signedNum : ℚ) / x.den = x.value := by
  unfold signedNum value
  split_ifs
  · push_cast
    rw [neg_div, num_div_den]
  · push_cast
    rw [num_div_den]

theorem value_of_not_negative {x : BinaryNumber f} (h : x.negative = false) : x.value = x.magnitude := by
  simp [value, h]

theorem value_nonpos {x : BinaryNumber f} (h : x.negative = true) : x.value ≤ 0 := by
  rw [value, if_pos h]
  exact neg_nonpos.2 x.magnitude_nonneg

theorem not_negative_of_pos {x : BinaryNumber f} (h : 0 < x.value) : x.negative = false := by
  by_contra hs
  exact not_lt.2 (value_nonpos (by simpa using hs)) h

theorem magnitude_lt_zpow (x : BinaryNumber f) : x.magnitude < 2 ^ (x.exponent + f.precision) := by
  have hm : (x.mantissa : ℚ) < 2 ^ f.precision := by
    rw [← twoPow_cast]
    exact_mod_cast x.fits.1
  have := two_zpow_pos x.exponent
  calc x.magnitude < 2 ^ f.precision * 2 ^ x.exponent := by
        unfold magnitude
        gcongr
    _ = 2 ^ (x.exponent + f.precision) := by
        rw [zpow_add₀ (by norm_num), zpow_natCast, mul_comm]

theorem magnitude_lt (x : BinaryNumber f) : x.magnitude < 2 ^ (f.maxExp + f.precision) := by
  have hmax := x.fits.2.2.1
  exact lt_of_lt_of_le x.magnitude_lt_zpow (zpow_le_zpow_right₀ (by norm_num) (by omega))

end BinaryNumber

namespace Binary

variable {f : BinaryFormat} {q : ℚ}

/-- where the last bit stands: below the value by no more than the precision, and no higher than it has to -/
theorem lastBitRat_spec (hf : f.Proper) (hq : 0 < q) :
    q < 2 ^ (lastBitRat f q + f.precision) ∧ f.minExp ≤ lastBitRat f q ∧
      (lastBitRat f q = f.minExp ∨ (2 : ℚ) ^ (lastBitRat f q + f.precision - 1) ≤ q) := by
  have l1 := Int.zpow_log_le_self (b := 2) (by norm_num) hq
  have l2 := Int.lt_zpow_succ_log_self (b := 2) (by norm_num) q
  push_cast at l1 l2
  have hp := hf.1
  refine ⟨lt_of_lt_of_le l2 (zpow_le_zpow_right₀ (by norm_num) ?_), le_max_left _ _, ?_⟩
  · unfold lastBitRat
    omega
  · rcases max_choice f.minExp (Int.log 2 q - (f.precision - 1 : Nat)) with h | h
    · exact Or.inl h
    · right
      refine le_trans (zpow_le_zpow_right₀ (by norm_num) ?_) l1
      unfold lastBitRat
      omega

/-- the mantissa before it is put into its normal form -/
theorem mantissa_bounds (hf : f.Proper) (hq : 0 < q) :
    halfEven (q / 2 ^ lastBitRat f q) ≤ twoPow f.precision ∧
      (lastBitRat f q = f.minExp ∨ twoPow (f.precision - 1) ≤ halfEven (q / 2 ^ lastBitRat f q)) := by
  obtain ⟨hlt, -, hge⟩ := lastBitRat_spec hf hq
  set e := lastBitRat f q
  have he := two_zpow_pos e
  have herr := abs_le.1 (halfEven_error (div_pos hq he).le)
  refine ⟨?_, ?_⟩
  · have h1 : q / 2 ^ e < 2 ^ f.precision := by
      rwa [div_lt_iff₀ he, ← zpow_natCast, ← zpow_add₀ (by norm_num), add_comm]
    have h2 : (halfEven (q / 2 ^ e) : ℚ) < twoPow f.precision + 1 := by
      rw [twoPow_cast]
      linarith
    have h3 : halfEven (q / 2 ^ e) < twoPow f.precision + 1 := by exact_mod_cast h2
    omega
  · refine hge.imp_right fun hge => ?_
    have h1 : (2 : ℚ) ^ (f.precision - 1) ≤ q / 2 ^ e := by
      rw [le_div_iff₀ he, ← zpow_natCast, ← zpow_add₀ (by norm_num)]
      refine le_trans (zpow_le_zpow_right₀ (by norm_num) ?_) hge
      have := hf.1
      omega
    have h2 : (twoPow (f.precision - 1) : ℚ) < halfEven (q / 2 ^ e) + 1 := by
      rw [twoPow_cast]
      linarith
    have h3 : twoPow (f.precision - 1) < halfEven (q / 2 ^ e) + 1 := by exact_mod_cast h2
    omega

theorem twoPow_pred {n : Nat} (h : 0 < n) : twoPow n = twoPow (n - 1) * 2 := by
  obtain ⟨k, rfl⟩ : ∃ k, n = k + 1 := ⟨n - 1, by omega⟩
  exact pow_succ 2 k

/-- what a rational is rounded to: the nearest whole number of last bits -/
def nearest (f : BinaryFormat) (q : ℚ) : ℚ := halfEven (q / 2 ^ lastBitRat f q) * 2 ^ lastBitRat f q

theorem nearest_nonneg (f : BinaryFormat) (q : ℚ) : 0 ≤ nearest f q :=
  mul_nonneg (Nat.cast_nonneg _) (two_zpow_pos _).le

theorem nearest_zero (f : BinaryFormat) : nearest f 0 = 0 := by
  have h : halfEven 0 = 0 := by simpa using halfEven_natCast 0
  simp [nearest, h]

/-- the error is half a last bit -/
theorem nearest_halfBit (f : BinaryFormat) (h0 : 0 ≤ q) : |nearest f q - q| ≤ 2 ^ lastBitRat f q / 2 := by
  unfold nearest
  set e := lastBitRat f q
  have he := two_zpow_pos e
  have herr := halfEven_error (div_nonneg h0 he.le)
  calc |(halfEven (q / 2 ^ e) : ℚ) * 2 ^ e - q| = |(halfEven (q / 2 ^ e) : ℚ) - q / 2 ^ e| * 2 ^ e := by
        rw [← abs_of_pos he, ← abs_mul, abs_of_pos he]
        congr 1
        field_simp
    _ ≤ 1 / 2 * 2 ^ e := by gcongr
    _ = 2 ^ e / 2 := by ring

/-- the error is relative to the value, or that of the least last bit -/
theorem nearest_error (hf : f.Proper) (h0 : 0 ≤ q) :
    |nearest f q - q| ≤ q / 2 ^ f.precision + 2 ^ f.minExp / 2 := by
  have hmin := two_zpow_pos f.minExp
  have hpow : (0 : ℚ) < 2 ^ f.precision := by positivity
  rcases h0.eq_or_lt with rfl | hq
  · rw [nearest_zero, sub_zero, abs_zero]
    positivity
  refine (nearest_halfBit f h0).trans ?_
  set e := lastBitRat f q
  rcases (lastBitRat_spec hf hq).2.2 with hlow | hge
  · have : (2 : ℚ) ^ e = 2 ^ f.minExp := by rw [← hlow]
    have : 0 ≤ q / 2 ^ f.precision := by positivity
    linarith
  · have hrel : (2 : ℚ) ^ e / 2 ≤ q / 2 ^ f.precision := by
      rw [le_div_iff₀ hpow]
      calc (2 : ℚ) ^ e / 2 * 2 ^ f.precision = 2 ^ (e + f.precision - 1) := by
            rw [zpow_sub_one₀ (by norm_num), zpow_add₀ (by norm_num), zpow_natCast]
            ring
        _ ≤ q := hge
    linarith

/-- **A value that the format holds is not changed.** -/
theorem nearest_exact (hf : f.Proper) {m : Nat} {e : Int} (hm : m < twoPow f.precision) (he : f.minExp ≤ e) :
    nearest f (m * 2 ^ e) = m * 2 ^ e := by
  have hep := two_zpow_pos e
  have h0 : (0 : ℚ) ≤ m * 2 ^ e := by positivity
  rcases h0.eq_or_lt with hq | hq
  · rw [← hq, nearest_zero]
  -- the last bit of the value is not above that of the mantissa, so the mantissa is a whole number of last bits
  have hle : lastBitRat f (m * 2 ^ e) ≤ e := by
    rcases (lastBitRat_spec hf hq).2.2 with hlow | hge
    · omega
    · have hm' : (m : ℚ) < 2 ^ f.precision := by
        rw [← twoPow_cast]
        exact_mod_cast hm
      have hlt : (m : ℚ) * 2 ^ e < 2 ^ (e + f.precision) := by
        rw [zpow_add₀ (by norm_num), zpow_natCast, mul_comm ((2 : ℚ) ^ e)]
        gcongr
      have := (zpow_lt_zpow_iff_right₀ (by norm_num : (1 : ℚ) < 2)).1 (lt_of_le_of_lt hge hlt)
      omega
  unfold nearest
  generalize lastBitRat f (m * 2 ^ e) = b at hle
  obtain ⟨k, hk⟩ := Int.eq_ofNat_of_zero_le (sub_nonneg.2 hle)
  obtain rfl : e = b + k := by omega
  have hb := two_zpow_pos b
  have hwhole : (m : ℚ) * 2 ^ (b + (k : Int)) / 2 ^ b = (m * 2 ^ k : Nat) := by
    rw [zpow_add₀ (by norm_num), zpow_natCast]
    push_cast
    field_simp
  rw [hwhole, halfEven_natCast, zpow_add₀ (by norm_num), zpow_natCast]
  push_cast
  ring

/-- **Rounding below the range of a format.** The result is finite, has the sign asked for, and is the nearest
whole number of last bits. -/
theorem roundRat_finite (hf : f.Proper) (s : Bool) (h0 : 0 ≤ q) (hmax : q < 2 ^ (f.maxExp + f.precision - 1)) :
    ∃ x : BinaryNumber f, roundRat f s q = .finite x ∧ x.negative = s ∧ x.magnitude = nearest f q := by
  obtain ⟨hp, hr⟩ := hf
  rcases h0.eq_or_lt with rfl | hq
  · have hfit : f.Fits 0 f.minExp := ⟨twoPow_pos _, le_rfl, hr.le, Or.inl rfl⟩
    refine ⟨⟨s, 0, f.minExp, hfit⟩, by simp [roundRat, ofParts, hfit], rfl, ?_⟩
    simp [BinaryNumber.magnitude, nearest_zero]
  obtain ⟨-, hmin, hge⟩ := lastBitRat_spec ⟨hp, hr⟩ hq
  obtain ⟨hm, hfull⟩ := mantissa_bounds ⟨hp, hr⟩ hq
  unfold nearest
  set e := lastBitRat f q with he
  set m := halfEven (q / 2 ^ e) with hme
  have hlt : e < f.maxExp := by
    rcases hge with hge | hge
    · omega
    · have := (zpow_lt_zpow_iff_right₀ (by norm_num : (1 : ℚ) < 2)).1 (lt_of_le_of_lt hge hmax)
      omega
  have hround : roundRat f s q = if m = twoPow f.precision then ofParts f s (twoPow (f.precision - 1)) (e + 1)
      else ofParts f s m e := by
    simp only [roundRat, hq.ne', if_false, ← he, ← hme]
  rw [hround]
  split_ifs with hcarry
  · -- the mantissa has grown by a bit: it is halved, and the last bit goes up
    have hhalf := twoPow_pred hp
    have hfit : f.Fits (twoPow (f.precision - 1)) (e + 1) := by
      have := twoPow_pos (f.precision - 1)
      exact ⟨by omega, by omega, by omega, Or.inr le_rfl⟩
    refine ⟨⟨s, _, _, hfit⟩, by simp [ofParts, hfit], rfl, ?_⟩
    simp only [BinaryNumber.magnitude, hcarry, hhalf]
    rw [zpow_add_one₀ (by norm_num : (2 : ℚ) ≠ 0)]
    push_cast
    ring
  · have hfit : f.Fits m e := ⟨by omega, hmin, hlt.le, hfull⟩
    exact ⟨⟨s, m, e, hfit⟩, by simp [ofParts, hfit], rfl, rfl⟩

theorem roundRat_error (hf : f.Proper) (s : Bool) (h0 : 0 ≤ q) (hmax : q < 2 ^ (f.maxExp + f.precision - 1)) :
    ∃ x : BinaryNumber f, roundRat f s q = .finite x ∧ x.negative = s ∧
      |x.magnitude - q| ≤ q / 2 ^ f.precision + 2 ^ f.minExp / 2 := by
  obtain ⟨x, hx, hs, hmag⟩ := roundRat_finite hf s h0 hmax
  exact ⟨x, hx, hs, hmag ▸ nearest_error hf h0⟩

theorem roundRat_exact (hf : f.Proper) (s : Bool) {m : Nat} {e : Int} (hm : m < twoPow f.precision)
    (he : f.minExp ≤ e) (hmax : (m : ℚ) * 2 ^ e < 2 ^ (f.maxExp + f.precision - 1)) :
    ∃ x : BinaryNumber f, roundRat f s (m * 2 ^ e) = .finite x ∧ x.negative = s ∧ x.magnitude = m * 2 ^ e := by
  have h0 : (0 : ℚ) ≤ m * 2 ^ e := mul_nonneg (Nat.cast_nonneg m) (two_zpow_pos e).le
  obtain ⟨x, hx, hs, hmag⟩ := roundRat_finite hf s h0 hmax
  exact ⟨x, hx, hs, hmag.trans (nearest_exact hf hm he)⟩

end Binary

end PacketForwarder
