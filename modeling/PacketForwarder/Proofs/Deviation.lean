/-
Deviations. A deviation in hertz is divided by a thousand, with one rounding, and its whole part is clamped to a byte.
The rounding does not show. A double below a multiple of a thousand misses it by at least one of its last bits, and a
thousand halves of the last bit of the quotient are less (`nearest_quotient_lt`).

Results:
- `ofHertz_exact`: the deviation is the exact quotient, truncated and clamped; the quotient of no double that is below a
  number of kilohertz is rounded up to it.
- `belowMultiple_truncated`: the double just below 131000.
-/
import PacketForwarder.Proofs.Frequency

namespace PacketForwarder

namespace Deviation

open Binary

/-- a rational without its fraction -/
def towardZero (q : ℚ) : Int := if 0 ≤ q then ⌊q⌋ else ⌈q⌉

/-! ## The quotient -/

theorem kilohertz_value : ∃ k : BinaryNumber .double, kilohertz = .finite k ∧ k.negative = false ∧
    k.magnitude = 1000 :=
  ofInt_natural (n := 1000) (by norm_num)

/-- the quotient by a thousand is never beyond the doubles -/
theorem div_kilohertz (x : BinaryNumber .double) :
    ∃ y : BinaryNumber .double, (Binary.finite x).div kilohertz = .finite y ∧ y.negative = x.negative ∧
      y.magnitude = nearest .double (x.magnitude / 1000) := by
  obtain ⟨k, hk, hks, hkm⟩ := kilohertz_value
  have h0 : 0 ≤ x.magnitude / 1000 := div_nonneg x.magnitude_nonneg (by norm_num)
  have hmax : x.magnitude / 1000 < 2 ^ (BinaryFormat.double.maxExp + BinaryFormat.double.precision - 1) := by
    have hx := x.magnitude_lt
    rw [zpow_sub_one₀ (by norm_num : (2 : ℚ) ≠ 0)]
    linarith [x.magnitude_nonneg]
  rw [hk, div_finite x (by rw [hkm]; norm_num), hks, hkm, Bool.bne_false]
  exact roundRat_finite double_proper x.negative h0 hmax

theorem div_kilohertz_lt {x : BinaryNumber .double} {n : Nat} (hpos : 1 ≤ n) (hn : n ≤ 255) (h : x.value / 1000 < n) :
    ∃ y : BinaryNumber .double, (Binary.finite x).div kilohertz = .finite y ∧ y.value < n := by
  obtain ⟨y, hy, hys, hym⟩ := div_kilohertz x
  refine ⟨y, hy, ?_⟩
  cases hs : x.negative with
  | true => exact lt_of_le_of_lt (BinaryNumber.value_nonpos (hys.trans hs)) (by exact_mod_cast hpos)
  | false =>
    rw [x.value_of_not_negative hs] at h
    rw [y.value_of_not_negative (hys.trans hs), hym]
    exact_mod_cast nearest_quotient_lt (d := 1000) (by norm_num) (by omega) (by exact_mod_cast h)

/-! ## The deviation -/

theorem toNat_ofHertz (hz : Double) : (ofHertz hz).toNat = (hz.div kilohertz).clamp 255 :=
  UInt8.toNat_ofNat_of_lt' (Nat.lt_of_le_of_lt (clamp_le _ _) (by decide))

theorem ofHertz_finite (x : BinaryNumber .double) :
    ((ofHertz (.finite x)).toNat : Int) = max 0 (min (towardZero (x.value / 1000)) 255) := by
  obtain ⟨y, hy, hys, hym⟩ := div_kilohertz x
  rw [toNat_ofHertz, hy]
  cases hs : x.negative with
  | true =>
    have hq : x.value / 1000 ≤ 0 := div_nonpos_of_nonpos_of_nonneg (BinaryNumber.value_nonpos hs) (by norm_num)
    have htrunc : towardZero (x.value / 1000) ≤ 0 := by
      unfold towardZero
      split_ifs with h0
      · simp [le_antisymm hq h0]
      · exact Int.ceil_le.2 (by simpa using hq)
    rw [clamp_negative (hys.trans hs)]
    omega
  | false =>
    have h0 : 0 ≤ x.magnitude / 1000 := div_nonneg x.magnitude_nonneg (by norm_num)
    have hfloor : min ⌊nearest .double (x.magnitude / 1000)⌋₊ 255 = min ⌊x.magnitude / 1000⌋₊ 255 := by
      exact_mod_cast floor_nearest_quotient (x := x) (d := 1000) (n := 255) (by norm_num) (by norm_num)
    have htrunc : towardZero (x.magnitude / 1000) = ⌊x.magnitude / 1000⌋₊ := by
      rw [towardZero, if_pos h0, Int.natCast_floor_eq_floor h0]
    rw [clamp_finite (hys.trans hs), hym, hfloor, x.value_of_not_negative hs, htrunc]
    omega

theorem toNat_ofHertz_infinite (s : Bool) : (ofHertz (.infinite s)).toNat = if s then 0 else 255 := by
  obtain ⟨k, hk, hks, -⟩ := kilohertz_value
  rw [toNat_ofHertz, hk, div, hks, Bool.bne_false]
  cases s <;> rfl

/-- **A deviation is the exact quotient by a thousand, truncated towards zero and clamped to a byte.** No quotient below
a number of kilohertz reaches it by rounding. -/
theorem ofHertz_exact :
    (∀ x : BinaryNumber .double,
      ((ofHertz (.finite x)).toNat : Int) = max 0 (min (towardZero (x.value / 1000)) 255)) ∧
    (∀ s : Bool, (ofHertz (.infinite s)).toNat = if s then 0 else 255) ∧
    ∀ (x : BinaryNumber .double) (n : Nat), 1 ≤ n → n ≤ 255 → x.value / 1000 < n →
      ∃ y : BinaryNumber .double, (Binary.finite x).div kilohertz = .finite y ∧ y.value < n :=
  ⟨ofHertz_finite, toNat_ofHertz_infinite, fun _ _ hpos hn h => div_kilohertz_lt hpos hn h⟩

/-- the last double below 131000 -/
def belowMultiple : BinaryNumber .double := ⟨false, 9002251452415999, -36, by decide⟩

/-- the last double below a multiple of a thousand is not lifted to it -/
theorem belowMultiple_truncated :
    (1 ≤ 131 ∧ 131 ≤ 255 ∧ belowMultiple.value / 1000 < (131 : Nat)) ∧
    (∃ y : BinaryNumber .double,
      (Binary.finite belowMultiple).div kilohertz = .finite y ∧ y.value < (131 : Nat)) ∧
    ofHertz (.finite belowMultiple) = 130 := by
  have hlt : belowMultiple.value / 1000 < (131 : Nat) := by
    norm_num [BinaryNumber.value, BinaryNumber.magnitude, belowMultiple]
  refine ⟨⟨by decide, by decide, hlt⟩, ?_, by decide +kernel⟩
  exact ofHertz_exact.2.2 belowMultiple 131 (by decide) (by decide) hlt

end Deviation

end PacketForwarder
