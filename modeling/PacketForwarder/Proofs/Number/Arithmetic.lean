/-
The operations on binary numbers in terms of exact values. Each one is the exact result, rounded once, so its value
is `Binary.roundRat` of a rational expression in the values of its operands.

- `convert_wider`: a format with more bits and a wider range holds every number of a narrower one.
- `natural_double`: naturals below `2 ^ 53` are doubles.
- `fixed_finite`: the text with a fixed count of places is the magnitude in units of the last place, rounded to even.
-/
import PacketForwarder.Proofs.Number.Rounding

namespace PacketForwarder

namespace Binary

variable {f g : BinaryFormat}

/-! ## Rounded results -/

theorem mul_finite (x y : BinaryNumber f) :
    mul (.finite x) (.finite y) = roundRat f (x.negative != y.negative) (x.magnitude * y.magnitude) := by
  rw [mul, round_eq _ _ _ (Nat.mul_pos x.den_pos y.den_pos), ← x.num_div_den, ← y.num_div_den]
  congr 1
  push_cast
  have := x.den_cast_pos
  have := y.den_cast_pos
  field_simp

theorem div_finite (x : BinaryNumber f) {y : BinaryNumber f} (hy : 0 < y.magnitude) :
    div (.finite x) (.finite y) = roundRat f (x.negative != y.negative) (x.magnitude / y.magnitude) := by
  have hm : y.mantissa ≠ 0 := by
    intro h
    simp [BinaryNumber.magnitude, h] at hy
  have hn : 0 < y.num := Nat.mul_pos (Nat.pos_of_ne_zero hm) (twoPow_pos _)
  rw [div, if_neg hm, round_eq _ _ _ (Nat.mul_pos x.den_pos hn), ← x.num_div_den, ← y.num_div_den]
  congr 1
  push_cast
  have := x.den_cast_pos
  have := y.den_cast_pos
  have : (0 : ℚ) < y.num := by exact_mod_cast hn
  field_simp

/-- the difference without its sign -/
theorem sub_finite (x y : BinaryNumber f) :
    ∃ s, sub (.finite x) (.finite y) = roundRat f s |x.value - y.value| := by
  have hx := x.den_cast_pos
  have hy := y.den_cast_pos
  have hdiff : ((x.signedNum * y.den - y.signedNum * x.den : Int) : ℚ) = (x.value - y.value) * (x.den * y.den) := by
    rw [← x.signedNum_div_den, ← y.signedNum_div_den]
    push_cast
    field_simp
  simp only [sub]
  split_ifs with h0
  · have hval : x.value - y.value = 0 := by
      rw [h0] at hdiff
      have hne : (x.den * y.den : ℚ) ≠ 0 := by positivity
      simpa [hne] using hdiff.symm
    refine ⟨x.negative && !y.negative, ?_⟩
    rw [round_eq _ _ _ Nat.one_pos, hval]
    simp
  · refine ⟨decide (x.signedNum * y.den - y.signedNum * x.den < 0), ?_⟩
    rw [round_eq _ _ _ (Nat.mul_pos x.den_pos y.den_pos)]
    congr 1
    rw [div_eq_iff (by push_cast; positivity), Nat.cast_natAbs, Int.cast_abs, hdiff, abs_mul]
    push_cast
    rw [abs_of_pos (mul_pos hx hy)]

theorem lt_finite (x y : BinaryNumber f) : lt (.finite x) (.finite y) = decide (x.value < y.value) := by
  have hx := x.den_cast_pos
  have hy := y.den_cast_pos
  rw [lt, decide_eq_decide, ← x.signedNum_div_den, ← y.signedNum_div_den, div_lt_div_iff₀ hx hy]
  exact_mod_cast Iff.rfl

/-! ## Exact results -/

/-- **A wider format holds every number of a narrower one.** -/
theorem convert_wider (hg : g.Proper) (hp : f.precision ≤ g.precision) (hmin : g.minExp ≤ f.minExp)
    (hmax : f.maxExp + f.precision ≤ g.maxExp + g.precision - 1) (x : BinaryNumber f) :
    ∃ y : BinaryNumber g, convert g (.finite x) = .finite y ∧ y.negative = x.negative ∧ y.magnitude = x.magnitude := by
  rw [convert, round_eq _ _ _ x.den_pos, x.num_div_den]
  obtain ⟨hm, he, -, -⟩ := x.fits
  have hle : twoPow f.precision ≤ twoPow g.precision := Nat.pow_le_pow_right (by norm_num) hp
  exact roundRat_exact hg x.negative (lt_of_lt_of_le hm hle) (hmin.trans he)
    (lt_of_lt_of_le x.magnitude_lt (zpow_le_zpow_right₀ (by norm_num) hmax))

theorem convert_double (x : BinaryNumber .single) :
    ∃ y : BinaryNumber .double, convert .double (.finite x) = .finite y ∧ y.negative = x.negative ∧
      y.magnitude = x.magnitude :=
  convert_wider double_proper (by decide) (by decide) (by decide) x

theorem natural_double (s : Bool) {n : Nat} (h : n < 2 ^ 53) :
    ∃ x : BinaryNumber .double, round .double s n 1 = .finite x ∧ x.negative = s ∧ x.magnitude = n := by
  have hn : (n : ℚ) < 2 ^ 53 := by exact_mod_cast h
  have hmax : (n : ℚ) * 2 ^ (0 : Int) <
      2 ^ (BinaryFormat.double.maxExp + BinaryFormat.double.precision - 1) := by
    refine lt_of_lt_of_le ?_ (zpow_le_zpow_right₀ (by norm_num) (by decide : (53 : Int) ≤ _))
    rw [zpow_zero, mul_one]
    exact_mod_cast hn
  obtain ⟨x, hx, hs, hmag⟩ := roundRat_exact double_proper s (m := n) (e := 0) h (by decide) hmax
  refine ⟨x, ?_, hs, by simpa using hmag⟩
  rw [round_eq _ _ _ Nat.one_pos]
  simpa using hx

theorem ofInt_natural {n : Nat} (h : n < 2 ^ 53) :
    ∃ x : BinaryNumber .double, ofInt .double (n : Int) = .finite x ∧ x.negative = false ∧ x.magnitude = n := by
  obtain ⟨x, hx, hs, hmag⟩ := natural_double false h
  refine ⟨x, ?_, hs, hmag⟩
  rw [← hx, ofInt, Int.natAbs_natCast, decide_eq_false (by omega)]

theorem ofInt_exact {n : Int} (h : n.natAbs < 2 ^ 53) :
    ∃ x : BinaryNumber .double, ofInt .double n = .finite x ∧ x.value = n := by
  obtain ⟨x, hx, hs, hmag⟩ := natural_double (decide (n < 0)) h
  refine ⟨x, hx, ?_⟩
  rw [BinaryNumber.value, hs, hmag, Nat.cast_natAbs]
  rcases lt_or_ge n 0 with hneg | hnonneg
  · simp [hneg, abs_of_neg hneg]
  · simp [not_lt.2 hnonneg, abs_of_nonneg hnonneg]

/-- a number that is not negative is clamped as its whole part is -/
theorem clamp_finite {x : BinaryNumber f} (hs : x.negative = false) (max : Nat) :
    clamp max (.finite x) = min ⌊x.magnitude⌋₊ max := by
  rw [clamp, hs, ← x.num_div_den, Nat.floor_div_eq_div]
  rfl

theorem clamp_negative {x : BinaryNumber f} (hs : x.negative = true) (max : Nat) : clamp max (.finite x) = 0 := by
  rw [clamp, hs]
  rfl

theorem clamp_le (max : Nat) (x : Binary f) : clamp max x ≤ max := by
  cases x with
  | finite x =>
    simp only [clamp]
    split_ifs
    · exact Nat.zero_le max
    · exact min_le_right _ _
  | infinite s => cases s <;> simp [clamp]
  | nan => exact Nat.zero_le max

theorem clamp_whole {x : BinaryNumber f} {n max : Nat} (hs : x.negative = false) (hm : x.magnitude = n) (h : n ≤ max) :
    clamp max (.finite x) = n := by
  rw [clamp_finite hs, hm, Nat.floor_natCast, min_eq_left h]

/-! ## Fixed text -/

/-- the magnitude in units of the last of some decimal places -/
def units (places : Nat) (x : BinaryNumber f) : Nat := halfEven (x.magnitude * 10 ^ places)

/-- **Fixed text** is the sign and the rounded units, with the point set. -/
theorem fixed_finite (places : Nat) (x : BinaryNumber f) :
    fixed places (.finite x) = (if x.negative then "-" else "") ++ placePoint places (units places x) := by
  have hround : roundHalfEven (x.num * tenPow places) x.den = units places x := by
    rw [roundHalfEven_eq x.den_pos, units, ← x.num_div_den]
    congr 1
    push_cast
    rw [tenPow_cast]
    ring
  rw [fixed, hround]

end Binary

end PacketForwarder
