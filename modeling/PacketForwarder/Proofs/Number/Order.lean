/-
Rounding and the order of the numbers. Rounding is monotone, so what is not above a value that the format holds is not
rounded above it. A value that is rounded has its last bit no higher than a greater one; where the last bits differ,
there is a power of two between the two results.

- `nearest_mono`: a greater value is not rounded to a smaller one.
- `nearest_quotient_lt`: the quotient of a double by a natural number is not rounded up to a natural number above it.
- `roundRat_cases`: over the whole range, a rounded value is the nearest one, or infinite where it is too great.
- `Le`: the order of the values that are numbers, with the infinities at its ends (`le_finite`).
-/
import PacketForwarder.Proofs.Number.Arithmetic

namespace PacketForwarder

/-! ## Rounding is monotone -/

theorem halfEven_mono {q q' : ℚ} (h0 : 0 ≤ q) (h : q ≤ q') : halfEven q ≤ halfEven q' := by
  by_contra hlt
  -- the two values would lie on the same half between the two whole numbers
  have hstep : (halfEven q' : ℚ) + 1 ≤ halfEven q := by exact_mod_cast not_le.1 hlt
  have hq := abs_le.1 (halfEven_error h0)
  have hq' := abs_le.1 (halfEven_error (h0.trans h))
  have heq : q = q' := by linarith
  rw [heq] at hlt
  exact hlt le_rfl

namespace Binary

variable {f : BinaryFormat} {q q' : ℚ}

theorem lastBitRat_mono (f : BinaryFormat) (hq : 0 < q) (h : q ≤ q') : lastBitRat f q ≤ lastBitRat f q' := by
  have hlog : Int.log 2 q ≤ Int.log 2 q' := Int.log_mono_right hq h
  unfold lastBitRat
  omega

/-- **Rounding is monotone.** -/
theorem nearest_mono (hf : f.Proper) (h0 : 0 ≤ q) (h : q ≤ q') : nearest f q ≤ nearest f q' := by
  rcases h0.eq_or_lt with rfl | hq
  · rw [nearest_zero]
    exact nearest_nonneg f q'
  have hz : (2 : ℚ) ≠ 0 := by norm_num
  obtain ⟨hle, -⟩ := mantissa_bounds hf hq
  obtain ⟨-, hfull⟩ := mantissa_bounds hf (hq.trans_le h)
  obtain ⟨-, hmin, -⟩ := lastBitRat_spec hf hq
  have hlast := lastBitRat_mono f hq h
  unfold nearest
  set e := lastBitRat f q
  set e' := lastBitRat f q'
  have he := two_zpow_pos e
  have he' := two_zpow_pos e'
  rcases hlast.eq_or_lt with heq | hlt
  · have hmono : halfEven (q / 2 ^ e) ≤ halfEven (q' / 2 ^ e) := by
      refine halfEven_mono (div_nonneg h0 he.le) ?_
      gcongr
    rw [← heq]
    gcongr
  · -- the smaller mantissa is at most full, and the greater one has its first bit
    have hle' : (halfEven (q / 2 ^ e) : ℚ) ≤ 2 ^ f.precision := by
      rw [← twoPow_cast]
      exact_mod_cast hle
    have hfull' : (2 : ℚ) ^ (f.precision - 1) ≤ halfEven (q' / 2 ^ e') := by
      rw [← twoPow_cast]
      exact_mod_cast hfull.resolve_left (by omega)
    have hp := hf.1
    calc (halfEven (q / 2 ^ e) : ℚ) * 2 ^ e ≤ 2 ^ f.precision * 2 ^ e := by gcongr
      _ = 2 ^ ((f.precision : Int) + e) := by rw [zpow_add₀ hz, zpow_natCast]
      _ ≤ 2 ^ (((f.precision - 1 : Nat) : Int) + e') := zpow_le_zpow_right₀ (by norm_num) (by omega)
      _ = 2 ^ (f.precision - 1) * 2 ^ e' := by rw [zpow_add₀ hz, zpow_natCast]
      _ ≤ halfEven (q' / 2 ^ e') * 2 ^ e' := by gcongr

theorem nearest_natCast {n : Nat} (h : n < 2 ^ 53) : nearest .double n = n := by
  simpa using nearest_exact double_proper (m := n) (e := 0) h (by decide)

theorem nearest_half_pow {k : Nat} (h : k < 1000) : nearest .double (1 / 2 ^ k) = 1 / 2 ^ k := by
  have hpow : (1 : ℚ) / 2 ^ k = (1 : Nat) * 2 ^ (-(k : Int)) := by
    rw [zpow_neg, zpow_natCast]
    simp
  rw [hpow]
  exact nearest_exact double_proper (by decide) (by change (-1074 : Int) ≤ _; omega)

/-! ## Quotients by a natural number -/

theorem exponent_nonpos {x : BinaryNumber .double} (h : x.magnitude < 2 ^ 53) : x.exponent ≤ 0 := by
  by_contra hpos
  obtain ⟨-, -, -, hnormal⟩ := x.fits
  have hmin : BinaryFormat.double.minExp = -1074 := rfl
  have hfull : 2 ^ 52 ≤ x.mantissa := hnormal.resolve_left (by omega)
  have hm : (2 : ℚ) ^ 52 ≤ x.mantissa := by exact_mod_cast hfull
  refine not_le.2 h ?_
  calc (2 : ℚ) ^ 53 = 2 ^ 52 * 2 ^ (1 : Int) := by norm_num
    _ ≤ (x.mantissa : ℚ) * 2 ^ x.exponent := by
        gcongr
        · norm_num
        · omega

/-- from a double to a greater natural number there is at least one of its last bits -/
theorem lastBit_le_gap {x : BinaryNumber .double} {n : Nat} (hn : n < 2 ^ 53) (h : x.magnitude < n) :
    2 ^ x.exponent ≤ n - x.magnitude := by
  have hn' : (n : ℚ) < 2 ^ 53 := by exact_mod_cast hn
  obtain ⟨k, hk⟩ := Int.eq_ofNat_of_zero_le (Int.neg_nonneg_of_nonpos (exponent_nonpos (h.trans hn')))
  have he := two_zpow_pos x.exponent
  -- the natural number is a whole number of last bits, too
  have hwhole : (n : ℚ) = (n * 2 ^ k : Nat) * 2 ^ x.exponent := by
    have hneg : x.exponent = -(k : Int) := by omega
    rw [hneg, zpow_neg, zpow_natCast]
    push_cast
    field_simp
  have hmag : x.magnitude = x.mantissa * 2 ^ x.exponent := rfl
  rw [hmag, hwhole] at h ⊢
  have hlt : x.mantissa + 1 ≤ n * 2 ^ k := by exact_mod_cast lt_of_mul_lt_mul_right h he.le
  have hle : (x.mantissa : ℚ) + 1 ≤ (n * 2 ^ k : Nat) := by exact_mod_cast hlt
  calc (2 : ℚ) ^ x.exponent = (x.mantissa + 1) * 2 ^ x.exponent - x.mantissa * 2 ^ x.exponent := by ring
    _ ≤ (n * 2 ^ k : Nat) * 2 ^ x.exponent - x.mantissa * 2 ^ x.exponent := by gcongr

/-- the last bit of a quotient of at least a half, raised by the bits of the divisor, is not above that of the
dividend -/
theorem lastBit_quotient_le {x : BinaryNumber .double} {d : Nat} (hd : 0 < d) (h : 1 / 2 ≤ x.magnitude / d) :
    lastBitRat .double (x.magnitude / d) + d.log2 ≤ x.exponent := by
  have hd' : (0 : ℚ) < d := by exact_mod_cast hd
  have hlog : (2 : ℚ) ^ d.log2 ≤ d := by exact_mod_cast Nat.log2_self_le hd.ne'
  have hq : 0 < x.magnitude / d := lt_of_lt_of_le (by norm_num) h
  obtain ⟨hlt, -, hge⟩ := lastBitRat_spec double_proper hq
  have hp : BinaryFormat.double.precision = 53 := rfl
  set e := lastBitRat .double (x.magnitude / d)
  have hfull : (2 : ℚ) ^ (e + 52) ≤ x.magnitude / d := by
    rcases hge with hmin | hge
    · -- with the least exponent the quotient would be tiny
      exfalso
      have htiny : (2 : ℚ) ^ (e + (53 : Nat)) ≤ 2 ^ (-1 : Int) := by
        rw [hmin]
        exact zpow_le_zpow_right₀ (by norm_num) (by decide)
      rw [hp] at hlt
      norm_num at hlt htiny h
      linarith
    · rw [hp] at hge
      convert hge using 2
      push_cast
      ring
  have hbound : (2 : ℚ) ^ (e + 52 + d.log2) < 2 ^ (x.exponent + 53) := by
    calc (2 : ℚ) ^ (e + 52 + d.log2) = 2 ^ (e + 52) * 2 ^ d.log2 := by
          rw [zpow_add₀ (by norm_num), zpow_natCast]
      _ ≤ x.magnitude / d * d := by gcongr
      _ = x.magnitude := div_mul_cancel₀ _ hd'.ne'
      _ < 2 ^ (x.exponent + 53) := x.magnitude_lt_zpow
  have := (zpow_lt_zpow_iff_right₀ (by norm_num : (1 : ℚ) < 2)).1 hbound
  omega

/-- **Rounding a quotient does not reach a natural number from below.** What is missing from the dividend is at least
one of its last bits; that is more than the divisor times half a last bit of the quotient. -/
theorem nearest_quotient_lt {x : BinaryNumber .double} {d n : Nat} (hd : 0 < d) (hn : d * n < 2 ^ 53)
    (h : x.magnitude / d < n) : nearest .double (x.magnitude / d) < n := by
  have hd' : (0 : ℚ) < d := by exact_mod_cast hd
  have h0 : 0 ≤ x.magnitude / d := div_nonneg x.magnitude_nonneg hd'.le
  rcases lt_or_ge (x.magnitude / d) (1 / 2) with hsmall | hlarge
  · have hpos : (1 : ℚ) ≤ n := by exact_mod_cast Nat.cast_pos.1 (h0.trans_lt h)
    calc nearest .double (x.magnitude / d) ≤ nearest .double (1 / 2 ^ 1) :=
          nearest_mono double_proper h0 (by linarith)
      _ = 1 / 2 ^ 1 := nearest_half_pow (by norm_num)
      _ < n := by linarith
  have hlast := lastBit_quotient_le hd hlarge
  have hhalf := (abs_le.1 (nearest_halfBit .double h0)).2
  have hgap : (2 : ℚ) ^ x.exponent ≤ d * n - x.magnitude := by
    have hlt : x.magnitude < (d * n : Nat) := by
      rw [div_lt_iff₀ hd'] at h
      push_cast
      linarith
    simpa using lastBit_le_gap hn hlt
  set e := lastBitRat .double (x.magnitude / d)
  by_contra hge
  have hge' : (n : ℚ) ≤ nearest .double (x.magnitude / d) := not_lt.1 hge
  have hlog : (d : ℚ) < 2 ^ (d.log2 + 1) := by exact_mod_cast Nat.lt_log2_self
  refine lt_irrefl ((2 : ℚ) ^ x.exponent) ?_
  calc (2 : ℚ) ^ x.exponent ≤ d * n - x.magnitude := hgap
    _ = d * (n - x.magnitude / d) := by field_simp
    _ ≤ d * (2 ^ e / 2) := by
        gcongr
        linarith
    _ < 2 ^ (d.log2 + 1) * (2 ^ e / 2) := by
        have := two_zpow_pos e
        gcongr
    _ = 2 ^ (e + d.log2) := by
        rw [zpow_add₀ (by norm_num), zpow_natCast, pow_succ]
        ring
    _ ≤ 2 ^ x.exponent := zpow_le_zpow_right₀ (by norm_num) hlast

theorem natCast_le_nearest_iff {x : BinaryNumber .double} {d n : Nat} (hd : 0 < d) (hn : d * n < 2 ^ 53) :
    (n : ℚ) ≤ nearest .double (x.magnitude / d) ↔ (n : ℚ) ≤ x.magnitude / d := by
  refine ⟨fun h => ?_, fun h => ?_⟩
  · by_contra hlt
    exact not_le.2 (nearest_quotient_lt hd hn (not_le.1 hlt)) h
  · have hn' : n < 2 ^ 53 := lt_of_le_of_lt (Nat.le_mul_of_pos_left n hd) hn
    rw [← nearest_natCast hn']
    exact nearest_mono double_proper (Nat.cast_nonneg n) h

/-- **The whole part of a quotient** survives the rounding, as far as the natural numbers that a double holds. -/
theorem floor_nearest_quotient {x : BinaryNumber .double} {d n : Nat} (hd : 0 < d) (hn : d * n < 2 ^ 53) :
    min ⌊nearest .double (x.magnitude / d)⌋₊ n = min ⌊x.magnitude / d⌋₊ n := by
  have h0 : 0 ≤ x.magnitude / d := div_nonneg x.magnitude_nonneg (Nat.cast_nonneg d)
  refine eq_of_forall_le_iff fun k => ?_
  rw [le_min_iff, le_min_iff, and_congr_left_iff]
  intro hk
  rw [Nat.le_floor_iff (nearest_nonneg _ _), Nat.le_floor_iff h0]
  exact natCast_le_nearest_iff hd (lt_of_le_of_lt (Nat.mul_le_mul_left d hk) hn)

/-! ## The whole range -/

/-- the result is made of parts whose value is the nearest one -/
theorem roundRat_parts (hf : f.Proper) (s : Bool) (q : ℚ) :
    ∃ (m : Nat) (e : Int), roundRat f s q = ofParts f s m e ∧ m * 2 ^ e = nearest f q := by
  unfold roundRat
  split_ifs with h0
  · exact ⟨0, f.minExp, rfl, by rw [h0, nearest_zero]; simp⟩
  dsimp only
  split_ifs with hcarry
  · refine ⟨_, _, rfl, ?_⟩
    unfold nearest
    rw [hcarry, twoPow_pred hf.1, zpow_add_one₀ (by norm_num : (2 : ℚ) ≠ 0)]
    push_cast
    ring
  · exact ⟨_, _, rfl, rfl⟩

/-- **Over the whole range** the result is the nearest value, or infinite where the value is too great. -/
theorem roundRat_cases (hf : f.Proper) (s : Bool) (h0 : 0 ≤ q) :
    (∃ x : BinaryNumber f, roundRat f s q = .finite x ∧ x.negative = s ∧ x.magnitude = nearest f q) ∨
      roundRat f s q = .infinite s ∧ 2 ^ (f.maxExp + f.precision - 1) ≤ q := by
  rcases lt_or_ge q (2 ^ (f.maxExp + f.precision - 1)) with hlt | hge
  · exact Or.inl (roundRat_finite hf s h0 hlt)
  · obtain ⟨m, e, hround, hvalue⟩ := roundRat_parts hf s q
    rw [hround]
    unfold ofParts
    split_ifs with hfits
    · exact Or.inl ⟨_, rfl, rfl, hvalue⟩
    · exact Or.inr ⟨rfl, hge⟩

/-! ## The order of the values -/

/-- the order of the values that are numbers; the two zeros are equal -/
def Le (x y : Binary f) : Prop := x ≠ .nan ∧ y ≠ .nan ∧ y.lt x = false

theorem le_finite {x y : BinaryNumber f} : Le (.finite x) (.finite y) ↔ x.value ≤ y.value := by
  simp [Le, lt_finite]

end Binary

end PacketForwarder
