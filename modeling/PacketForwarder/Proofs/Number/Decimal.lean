/-
Decimal digits and the numbers that they spell. `Decimal.ofDigits` undoes the two ways in which a natural number is
written, bare and with zeros in front, so the digits of a fixed text spell its units (`ofDigits_placePoint`), and the
nearest double of such a text is `Binary.roundRat` of its rational (`toBinary_places`).
-/
import PacketForwarder.Number.Decimal
import PacketForwarder.Proofs.Number.Rounding

namespace PacketForwarder

/-! ## Digits -/

def paddedDigits (width n : Nat) : List Char :=
  List.replicate (width - (Nat.toDigits 10 n).length) '0' ++ Nat.toDigits 10 n

theorem zeroPadded_eq (width n : Nat) : zeroPadded width n = String.ofList (paddedDigits width n) := rfl

theorem isDigit_of_mem_toDigits {n : Nat} {c : Char} (h : c ∈ Nat.toDigits 10 n) : c.isDigit = true :=
  Nat.isDigit_of_mem_toDigits (by norm_num) (by norm_num) h

theorem isDigit_of_mem_paddedDigits {width n : Nat} {c : Char} (h : c ∈ paddedDigits width n) : c.isDigit = true := by
  rcases List.mem_append.1 h with h | h
  · rw [List.eq_of_mem_replicate h]
    rfl
  · exact isDigit_of_mem_toDigits h

theorem length_paddedDigits {width n : Nat} (hw : 0 < width) (h : n < 10 ^ width) :
    (paddedDigits width n).length = width := by
  have := (Nat.length_toDigits_le_iff (b := 10) (by norm_num) hw).2 h
  simp only [paddedDigits, List.length_append, List.length_replicate]
  omega

/-- No zero stands in front of other digits. -/
theorem head_toDigits_ne_zero {n : Nat} (h : 0 < n) : (Nat.toDigits 10 n).head? ≠ some '0' := by
  induction n using Nat.strong_induction_on with
  | _ n ih =>
    rcases lt_or_ge n 10 with hn | hn
    · rw [Nat.toDigits_of_lt_base hn]
      interval_cases n <;> decide
    · rw [Nat.toDigits_of_base_le (by norm_num) hn]
      have hrec := ih (n / 10) (by omega) (by omega)
      rwa [List.head?_append_of_ne_nil _ Nat.toDigits_ne_nil]

theorem length_toDigits_of_head_zero {n : Nat} (h : (Nat.toDigits 10 n).head? = some '0') :
    (Nat.toDigits 10 n).length = 1 := by
  rcases Nat.eq_zero_or_pos n with rfl | hn
  · simp
  · exact absurd h (head_toDigits_ne_zero hn)

namespace Decimal

theorem ofDigits_toDigits (n : Nat) : ofDigits (Nat.toDigits 10 n) = n := Nat.ofDigitChars_ten_toDigits

/-- digits in front count by the power of ten of the digits after them -/
theorem ofDigits_append (as bs : List Char) : ofDigits (as ++ bs) = ofDigits as * 10 ^ bs.length + ofDigits bs := by
  unfold ofDigits
  rw [Nat.ofDigitChars_append, Nat.ofDigitChars_eq_ofDigitChars_zero]
  ring

theorem ofDigits_paddedDigits (width n : Nat) : ofDigits (paddedDigits width n) = n := by
  rw [paddedDigits, ofDigits_append, ofDigits_toDigits]
  simp [ofDigits, Nat.ofDigitChars_replicate_zero]

/-- **The digits of a fixed text** on both sides of its point spell its units. -/
theorem ofDigits_placePoint {places : Nat} (units : Nat) (hp : 0 < places) :
    ofDigits (Nat.toDigits 10 (units / tenPow places) ++ paddedDigits places (units % tenPow places)) = units := by
  have hlt : units % tenPow places < 10 ^ places := Nat.mod_lt _ (tenPow_pos places)
  rw [ofDigits_append, ofDigits_toDigits, ofDigits_paddedDigits, length_paddedDigits hp hlt]
  exact Nat.div_add_mod' units (tenPow places)

/-! ## The nearest double -/

/-- No double reaches this power of ten, and its inverse is below all of them but zero. `Decimal.toBinary` cuts off only
further out. -/
def ampleDigits : Nat := 2000

/-- the magnitude of a decimal places it between two powers of ten -/
theorem magnitude_bounds {d : Decimal} (h : d.digits ≠ 0) :
    (10 : ℚ) ^ (d.magnitude - 1) ≤ d.digits * 10 ^ d.exponent ∧
      d.digits * (10 : ℚ) ^ d.exponent < 10 ^ d.magnitude := by
  have hpos := Nat.length_toDigits_pos (b := 10) (n := d.digits)
  have hlow : 10 ^ ((Nat.toDigits 10 d.digits).length - 1) ≤ d.digits := by
    rcases Nat.eq_or_lt_of_le hpos with hone | hmore
    · rw [← hone]
      exact Nat.pos_of_ne_zero h
    · by_contra hlt
      have hle := (Nat.length_toDigits_le_iff (b := 10) (by norm_num) (by omega)).2 (not_le.1 hlt)
      omega
  have hhigh : d.digits < 10 ^ (Nat.toDigits 10 d.digits).length :=
    (Nat.length_toDigits_le_iff (b := 10) (by norm_num) hpos).1 le_rfl
  have hscale : (0 : ℚ) < 10 ^ d.exponent := zpow_pos (by norm_num) _
  unfold magnitude
  generalize (Nat.toDigits 10 d.digits).length = len at *
  have hlow' : (10 : ℚ) ^ (len - 1) ≤ d.digits := by exact_mod_cast hlow
  have hhigh' : (d.digits : ℚ) < 10 ^ len := by exact_mod_cast hhigh
  have hpred : (len : Int) + d.exponent - 1 = (len - 1 : Nat) + d.exponent := by omega
  rw [hpred, zpow_add₀ (by norm_num), zpow_add₀ (by norm_num), zpow_natCast, zpow_natCast]
  exact ⟨mul_le_mul_of_nonneg_right hlow' hscale.le, mul_lt_mul_of_pos_right hhigh' hscale⟩

/-- **The nearest double of a decimal of ample size**: nothing is cut off. -/
theorem toBinary_ample {d : Decimal}
    (hlow : d.digits ≠ 0 → (10 : ℚ) ^ (-(ampleDigits : Int)) ≤ d.digits * 10 ^ d.exponent)
    (hhigh : d.digits * (10 : ℚ) ^ d.exponent < 10 ^ (ampleDigits : Int)) :
    toBinary .double d = Binary.roundRat .double d.negative (d.digits * 10 ^ d.exponent) := by
  have hreach : reach .double = 2098 := by decide
  have hample : (ampleDigits : Int) = 2000 := rfl
  unfold toBinary
  split_ifs with h0 h1 h2
  · rw [Binary.round_eq _ _ _ Nat.one_pos, h0]
    simp
  · have hlt := (magnitude_bounds h0).1.trans_lt hhigh
    have := (zpow_lt_zpow_iff_right₀ (by norm_num : (1 : ℚ) < 10)).1 hlt
    omega
  · have hlt := (hlow h0).trans_lt (magnitude_bounds h0).2
    have := (zpow_lt_zpow_iff_right₀ (by norm_num : (1 : ℚ) < 10)).1 hlt
    omega
  · rw [Binary.round_eq _ _ _ (tenPow_pos _)]
    congr 1
    push_cast
    rw [tenPow_cast, tenPow_cast, mul_div_assoc, toNat_zpow]

theorem toBinary_places (s : Bool) (n places : Nat) (hn : n < 10 ^ ampleDigits) (hp : places ≤ ampleDigits) :
    toBinary .double ⟨s, n, -(places : Int)⟩ = Binary.roundRat .double s (n / 10 ^ places) := by
  have hvalue : (n : ℚ) * 10 ^ (-(places : Int)) = n / 10 ^ places := by
    rw [zpow_neg, zpow_natCast, div_eq_mul_inv]
  have hone : (1 : ℚ) ≤ 10 ^ places := one_le_pow₀ (by norm_num)
  have hn' : (n : ℚ) < 10 ^ ampleDigits := by exact_mod_cast hn
  have hsmall : (10 : ℚ) ^ (-(ampleDigits : Int)) ≤ 10 ^ (-(places : Int)) :=
    zpow_le_zpow_right₀ (by norm_num) (by omega)
  have hscale : (0 : ℚ) < 10 ^ (-(places : Int)) := zpow_pos (by norm_num) _
  rw [← hvalue]
  refine toBinary_ample (d := ⟨s, n, -(places : Int)⟩) (fun h0 => hsmall.trans (le_mul_of_one_le_left hscale.le ?_)) ?_
  · exact_mod_cast Nat.pos_of_ne_zero h0
  · dsimp only
    rw [hvalue, zpow_natCast]
    exact (div_le_self (Nat.cast_nonneg n) hone).trans_lt hn'

end Decimal

end PacketForwarder
