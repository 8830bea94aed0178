/-
Frequencies between hertz and megahertz. A frequency in hertz is below `2 ^ 32`, so the two roundings on its way, of
the quotient by a million and of the product with it, move it by less than a ten-thousandth of a hertz. That is far
inside the snap, and far inside half of the sixth decimal.

- `toMegahertz_eq`: the megahertz are the double nearest to the exact quotient.
- `ofMegahertz_quotient`: that double is read as the hertz that it came from.
- `toMegahertz_text`: its text with six decimals spells the hertz exactly.
-/
import PacketForwarder.Frequency
import PacketForwarder.Proofs.Number.Decimal
import PacketForwarder.Proofs.Number.Order

namespace PacketForwarder

namespace Binary

variable {q : ℚ}

/-- a bound far below the range of the doubles -/
theorem double_range (hmax : q ≤ 2 ^ 200) :
    q < 2 ^ (BinaryFormat.double.maxExp + BinaryFormat.double.precision - 1) := by
  refine lt_of_le_of_lt hmax ?_
  rw [← zpow_natCast]
  exact zpow_lt_zpow_right₀ (by norm_num) (by decide : ((200 : Nat) : Int) < _)

/-- the error of a double, with the least last bit made coarse -/
theorem double_error (s : Bool) (h0 : 0 ≤ q) (hmax : q ≤ 2 ^ 200) :
    ∃ x : BinaryNumber .double, roundRat .double s q = .finite x ∧ x.negative = s ∧
      |x.magnitude - q| ≤ q / 2 ^ 53 + 1 / 2 ^ 100 := by
  obtain ⟨x, hx, hs, herr⟩ := roundRat_error double_proper s h0 (double_range hmax)
  refine ⟨x, hx, hs, herr.trans ?_⟩
  have hmin : (2 : ℚ) ^ BinaryFormat.double.minExp / 2 ≤ 1 / 2 ^ 100 := by
    calc (2 : ℚ) ^ BinaryFormat.double.minExp / 2 ≤ 2 ^ BinaryFormat.double.minExp :=
          half_le_self (two_zpow_pos _).le
      _ ≤ 2 ^ (-(100 : Nat) : Int) := zpow_le_zpow_right₀ (by norm_num) (by decide)
      _ = 1 / 2 ^ 100 := by rw [zpow_neg, zpow_natCast, one_div]
  have hp : BinaryFormat.double.precision = 53 := rfl
  rw [hp]
  linarith

end Binary

namespace Frequency

open Binary

/-! ## The constants -/

theorem megahertz_value : ∃ m : BinaryNumber .double, megahertz = .finite m ∧ m.negative = false ∧
    m.magnitude = 1000000 :=
  ofInt_natural (n := 1000000) (by norm_num)

theorem snap_value : ∃ t : BinaryNumber .double, snap = .finite t ∧ t.negative = false ∧
    t.magnitude = nearest .double (1 / 10 ^ 3) := by
  have hsnap : snap = roundRat .double false (1 / 10 ^ 3) := by
    have h := Decimal.toBinary_places false 1 3 (Nat.one_lt_pow (by decide) (by norm_num)) (by decide)
    simpa [snap] using h
  rw [hsnap]
  exact roundRat_finite double_proper false (by norm_num) (double_range (by norm_num))

/-! ## From hertz -/

theorem toMegahertz_eq (hz : UInt32) : toMegahertz hz = roundRat .double false (hz.toNat / 10 ^ 6) := by
  have hlt : hz.toNat < 2 ^ 53 := lt_trans hz.toNat_lt (by norm_num)
  obtain ⟨x, hx, hxs, hxm⟩ := ofInt_natural hlt
  obtain ⟨m, hm, hms, hmm⟩ := megahertz_value
  rw [toMegahertz, hx, hm, div_finite x (by rw [hmm]; norm_num), hxs, hms, hxm, hmm]
  norm_num

theorem quotient_nonneg (n : Nat) : (0 : ℚ) ≤ n / 10 ^ 6 := by positivity

theorem quotient_le {n : Nat} (h : n < 2 ^ 32) : (n / 10 ^ 6 : ℚ) ≤ 2 ^ 200 := by
  have hn : (n : ℚ) < 2 ^ 32 := by exact_mod_cast h
  calc (n / 10 ^ 6 : ℚ) ≤ n := div_le_self (Nat.cast_nonneg n) (by norm_num)
    _ ≤ 2 ^ 32 := hn.le
    _ ≤ 2 ^ 200 := pow_le_pow_right₀ (by norm_num) (by norm_num)

/-- the megahertz of a frequency, within a billionth of a hertz times the frequency -/
theorem quotient_double {n : Nat} (h : n < 2 ^ 32) :
    ∃ x : BinaryNumber .double, roundRat .double false (n / 10 ^ 6) = .finite x ∧ x.negative = false ∧
      |x.magnitude * 10 ^ 6 - n| ≤ 1 / 2 ^ 20 := by
  obtain ⟨x, hx, hs, herr⟩ := double_error false (quotient_nonneg n) (quotient_le h)
  refine ⟨x, hx, hs, ?_⟩
  have hn : (n : ℚ) < 2 ^ 32 := by exact_mod_cast h
  obtain ⟨h1, h2⟩ := abs_le.1 herr
  rw [abs_le]
  norm_num at h1 h2 ⊢
  constructor <;> linarith

theorem toMegahertz_finite (hz : UInt32) : ∃ x : BinaryNumber .double, toMegahertz hz = .finite x ∧
    x.negative = false ∧ units 6 x = hz.toNat ∧ x.magnitude ≤ 2 ^ 32 := by
  obtain ⟨x, hx, hs, herr⟩ := quotient_double hz.toNat_lt
  refine ⟨x, (toMegahertz_eq hz).trans hx, hs, ?_, ?_⟩
  · refine halfEven_near (mul_nonneg x.magnitude_nonneg (by norm_num)) (lt_of_le_of_lt herr ?_)
    norm_num
  · have hn : (hz.toNat : ℚ) ≤ 2 ^ 32 := by exact_mod_cast hz.toNat_lt.le
    have hle := (abs_le.1 herr).2
    linarith

/-- **The text with six decimals spells the hertz.** -/
theorem toMegahertz_text (hz : UInt32) : (toMegahertz hz).fixed 6 = placePoint 6 hz.toNat := by
  obtain ⟨x, hx, hs, hunits, -⟩ := toMegahertz_finite hz
  rw [hx, fixed_finite, hs, hunits]
  rfl

/-! ## To hertz -/

theorem nearestWhole_near {x : BinaryNumber .double} {n : Nat} (hn : n < 2 ^ 53) (h : |x.magnitude - n| < 1 / 2) :
    ∃ w : BinaryNumber .double, nearestWhole (.finite x) = .finite w ∧ w.negative = x.negative ∧ w.magnitude = n := by
  have hup : roundHalfUp x.num x.den = n := roundHalfUp_near x.den_pos (by rwa [x.num_div_den])
  obtain ⟨w, hw, hs, hmag⟩ := natural_double x.negative hn
  exact ⟨w, by rw [nearestWhole, hup, hw], hs, hmag⟩

/-- what is within the snap: a difference that is rounded to less than it -/
theorem sub_lt_snap {x y : BinaryNumber .double} (h : |x.value - y.value| ≤ 1) :
    (((Binary.finite x).sub (.finite y)).abs).lt snap =
      decide (nearest .double |x.value - y.value| < nearest .double (1 / 10 ^ 3)) := by
  obtain ⟨s, hsub⟩ := sub_finite x y
  obtain ⟨d, hd, -, hmag⟩ := roundRat_finite double_proper s (abs_nonneg (x.value - y.value))
    (double_range (h.trans (by norm_num)))
  obtain ⟨t, ht, hts, htm⟩ := snap_value
  have hvalue : BinaryNumber.value { d with negative := false } = d.magnitude := rfl
  rw [hsub, hd, ht, Binary.abs, lt_finite, hvalue, t.value_of_not_negative hts, hmag, htm]

theorem sub_within_snap {x y : BinaryNumber .double} (h : |x.value - y.value| ≤ 1 / 2 ^ 15) :
    (((Binary.finite x).sub (.finite y)).abs).lt snap = true := by
  rw [sub_lt_snap (h.trans (by norm_num)), decide_eq_true_iff]
  calc nearest .double |x.value - y.value| ≤ nearest .double (1 / 2 ^ 15) :=
        nearest_mono double_proper (abs_nonneg _) h
    _ = 1 / 2 ^ 15 := nearest_half_pow (by norm_num)
    _ < 1 / 2 ^ 10 := by norm_num
    _ = nearest .double (1 / 2 ^ 10) := (nearest_half_pow (by norm_num)).symm
    _ ≤ nearest .double (1 / 10 ^ 3) := nearest_mono double_proper (by norm_num) (by norm_num)

/-- **Hertz survive the way through megahertz**: the double nearest to their quotient is read as them. -/
theorem ofMegahertz_quotient {n : Nat} (hn : n < 2 ^ 32) :
    ofMegahertz (roundRat .double false (n / 10 ^ 6)) = .ofNat n := by
  have hnq : (n : ℚ) < 2 ^ 32 := by exact_mod_cast hn
  obtain ⟨x, hx, hxs, hxerr⟩ := quotient_double hn
  obtain ⟨m, hm, hms, hmm⟩ := megahertz_value
  -- the product with a million, near the hertz
  obtain ⟨hx1, hx2⟩ := abs_le.1 hxerr
  have hprod : (0 : ℚ) ≤ x.magnitude * 10 ^ 6 := mul_nonneg x.magnitude_nonneg (by norm_num)
  have hbig : x.magnitude * 10 ^ 6 ≤ 2 ^ 33 := by
    norm_num at hx1 hx2 ⊢
    linarith
  obtain ⟨p, hp, hps, hperr⟩ := double_error false hprod (hbig.trans (pow_le_pow_right₀ (by norm_num) (by norm_num)))
  have hmul : (Binary.finite x).mul megahertz = .finite p := by
    rw [hm, mul_finite, hxs, hms, hmm, ← hp]
    norm_num
  have hnear : |p.magnitude - n| ≤ 1 / 2 ^ 15 := by
    obtain ⟨hp1, hp2⟩ := abs_le.1 hperr
    rw [abs_le]
    norm_num at hx1 hx2 hp1 hp2 hbig ⊢
    constructor <;> linarith
  -- the nearest whole number is the hertz, and nearer than the snap
  obtain ⟨w, hw, hws, hwm⟩ := nearestWhole_near (lt_trans hn (by norm_num)) (lt_of_le_of_lt hnear (by norm_num))
  have hsnap : (((Binary.finite p).sub (.finite w)).abs).lt snap = true := by
    refine sub_within_snap ?_
    rwa [p.value_of_not_negative hps, w.value_of_not_negative (hws.trans hps), hwm]
  have hclamp : clamp maxHertz (.finite w) = n :=
    clamp_whole (hws.trans hps) hwm (by unfold maxHertz; omega)
  rw [hx, ofMegahertz]
  simp only [hmul, hw, hsnap, if_true, hclamp]

end Frequency

end PacketForwarder
