/-
Frequencies keep their order. A frequency in megahertz is multiplied by a million, with one rounding; the hertz are then
settled on a whole number (`settle`): the whole part, or the next whole number if the distance to it is rounded to less
than the snap. The snap is itself the rounded thousandth, and rounding is monotone, so only a distance of less than a
thousandth is within it. For the same reason hertz nearer to the next whole number are not settled below others.

Results:
- `ofMegahertz_ordered`: more megahertz never give less hertz, and the hertz are less than a thousandth above the exact
  product and less than one below it, as far as there is a word for them; beyond they are the ends of the range.
- `adjacentDoubles_ordered`: two adjacent doubles, of which one is settled upwards.
-/
import PacketForwarder.Proofs.Frequency

namespace PacketForwarder

namespace Frequency

open Binary

/-! ## Settling on a whole number -/

/-- from the whole part of a rational that is not negative to the next whole number -/
def toNext (h : ℚ) : ℚ := ⌊h⌋₊ + 1 - h

/-- the whole part, or the next whole number if it is within the snap -/
def settle (h : ℚ) : Nat :=
  if toNext h ≤ 1 / 2 ∧ nearest .double (toNext h) < nearest .double (1 / 10 ^ 3) then ⌊h⌋₊ + 1 else ⌊h⌋₊

variable {h h' : ℚ}

theorem toNext_nonneg (h : ℚ) : 0 ≤ toNext h := sub_nonneg.2 (Nat.lt_floor_add_one h).le

theorem floor_le_settle (h : ℚ) : ⌊h⌋₊ ≤ settle h := by
  unfold settle
  split_ifs <;> omega

theorem settle_le (h : ℚ) : settle h ≤ ⌊h⌋₊ + 1 := by
  unfold settle
  split_ifs <;> omega

/-- only a distance of less than a thousandth is within the snap -/
theorem lt_of_nearest_lt_snap {d : ℚ} (hd : nearest .double d < nearest .double (1 / 10 ^ 3)) : d < 1 / 10 ^ 3 := by
  by_contra hge
  exact not_lt.2 (nearest_mono double_proper (by norm_num) (not_lt.1 hge)) hd

/-- **The window of the snap.** -/
theorem settle_window (h0 : 0 ≤ h) : (settle h : ℚ) - 1 / 1000 < h ∧ h < settle h + 1 := by
  have hfloor := Nat.floor_le h0
  have hnext := Nat.lt_floor_add_one h
  unfold settle
  split_ifs with hup
  · have hnear := lt_of_nearest_lt_snap hup.2
    unfold toNext at hnear
    push_cast
    constructor <;> linarith
  · constructor <;> linarith

/-- **More hertz are not settled on less.** -/
theorem settle_mono (hle : h ≤ h') : settle h ≤ settle h' := by
  rcases (Nat.floor_le_floor hle).eq_or_lt with heq | hlt
  · have hnext : toNext h' ≤ toNext h := by
      unfold toNext
      rw [heq]
      linarith
    have hnearest := nearest_mono double_proper (toNext_nonneg h') hnext
    unfold settle
    rw [heq]
    split_ifs with hup hup'
    · exact le_rfl
    · exact absurd ⟨hnext.trans hup.1, hnearest.trans_lt hup.2⟩ hup'
    · exact Nat.le_succ _
    · exact le_rfl
  · calc settle h ≤ ⌊h⌋₊ + 1 := settle_le h
      _ ≤ ⌊h'⌋₊ := hlt
      _ ≤ settle h' := floor_le_settle h'

/-! ## Settling a double -/

/-- what a frequency makes of its product with a million -/
def wholeHertz (hz : Double) : Nat :=
  if ((hz.sub hz.nearestWhole).abs).lt snap then hz.nearestWhole.clamp maxHertz else hz.whole.clamp maxHertz

theorem roundHalfUp_toNext {num den : Nat} (hd : 0 < den) :
    roundHalfUp num den = if toNext (num / den) ≤ 1 / 2 then ⌊(num / den : ℚ)⌋₊ + 1 else ⌊(num / den : ℚ)⌋₊ := by
  have h0 : (0 : ℚ) ≤ num / den := by positivity
  have hfloor := Nat.floor_le h0
  have hnext := Nat.lt_floor_add_one (num / den : ℚ)
  rw [roundHalfUp_eq hd, Nat.floor_eq_iff (by linarith)]
  unfold toNext
  split_ifs with hup
  · push_cast
    constructor <;> linarith
  · constructor <;> linarith

theorem clamp_round {max : Nat} (hmax : max < 2 ^ 53) (n : Nat) : clamp max (round .double false n 1) = min n max := by
  rcases lt_or_ge n (2 ^ 53) with hlt | hge
  · obtain ⟨x, hx, hs, hmag⟩ := natural_double false hlt
    rw [hx, clamp_finite hs, hmag, Nat.floor_natCast]
  · have hn : max ≤ n := by omega
    rw [round_eq _ _ _ Nat.one_pos, Nat.cast_one, div_one, min_eq_right hn]
    rcases roundRat_cases double_proper false (Nat.cast_nonneg n) with ⟨x, hx, hs, hmag⟩ | ⟨hx, -⟩
    · have hle : (max : ℚ) ≤ x.magnitude := by
        rw [hmag, ← nearest_natCast hmax]
        exact nearest_mono double_proper (Nat.cast_nonneg max) (by exact_mod_cast hn)
      rw [hx, clamp_finite hs, min_eq_right (Nat.le_floor hle)]
    · rw [hx]
      rfl

theorem clamp_round_negative (max n : Nat) : clamp max (round .double true n 1) = 0 := by
  rw [round_eq _ _ _ Nat.one_pos]
  rcases roundRat_cases double_proper true (by positivity : (0 : ℚ) ≤ n / (1 : Nat)) with ⟨x, hx, hs, -⟩ | ⟨hx, -⟩
  · rw [hx, clamp_negative hs]
  · rw [hx]
    rfl

theorem wholeHertz_negative {h : BinaryNumber .double} (hs : h.negative = true) : wholeHertz (.finite h) = 0 := by
  have hwhole : (whole (.finite h)).clamp maxHertz = 0 := by rw [whole, hs, clamp_round_negative]
  have hnearest : (nearestWhole (.finite h)).clamp maxHertz = 0 := by rw [nearestWhole, hs, clamp_round_negative]
  rw [wholeHertz, hwhole, hnearest, ite_self]

/-- **A double that is not negative is settled as its value is**, and clamped. -/
theorem wholeHertz_finite {h : BinaryNumber .double} (hs : h.negative = false) :
    wholeHertz (.finite h) = min (settle h.magnitude) maxHertz := by
  have hmax : maxHertz < 2 ^ 53 := by decide
  have hwhole : (whole (.finite h)).clamp maxHertz = min ⌊h.magnitude⌋₊ maxHertz := by
    rw [whole, hs, clamp_round hmax, ← h.num_div_den, Nat.floor_div_eq_div]
  have hnear : roundHalfUp h.num h.den =
      if toNext h.magnitude ≤ 1 / 2 then ⌊h.magnitude⌋₊ + 1 else ⌊h.magnitude⌋₊ := by
    rw [roundHalfUp_toNext h.den_pos, h.num_div_den]
  have hnearest : (nearestWhole (.finite h)).clamp maxHertz = min (roundHalfUp h.num h.den) maxHertz := by
    rw [nearestWhole, hs, clamp_round hmax]
  unfold wholeHertz
  rw [hwhole, hnearest, hnear]
  unfold settle
  by_cases hup : toNext h.magnitude ≤ 1 / 2
  · rw [if_pos hup]
    rcases le_or_gt maxHertz ⌊h.magnitude⌋₊ with hlarge | hsmall
    · -- beyond the word it does not matter
      split_ifs <;> omega
    · have hsucc : ⌊h.magnitude⌋₊ + 1 < 2 ^ 53 := by omega
      obtain ⟨w, hw, hws, hwm⟩ := natural_double h.negative hsucc
      have hdist : |h.value - w.value| = toNext h.magnitude := by
        rw [h.value_of_not_negative hs, w.value_of_not_negative (hws.trans hs), hwm, abs_sub_comm]
        push_cast
        exact abs_of_nonneg (toNext_nonneg h.magnitude)
      have hround : nearestWhole (.finite h) = .finite w := by rw [nearestWhole, hnear, if_pos hup, hw]
      rw [hround, sub_lt_snap (by linarith), hdist]
      simp only [hup, true_and, decide_eq_true_eq]
      split_ifs <;> rfl
  · simp only [hup, if_false, false_and, ite_self]

/-! ## From megahertz -/

theorem wholeHertz_le (hz : Double) : wholeHertz hz ≤ maxHertz := by
  unfold wholeHertz
  split_ifs
  · exact clamp_le _ _
  · exact clamp_le _ _

theorem toNat_ofMegahertz (x : Double) : (ofMegahertz x).toNat = wholeHertz (x.mul megahertz) :=
  UInt32.toNat_ofNat_of_lt' (Nat.lt_of_le_of_lt (wholeHertz_le _) (by decide))

theorem mul_megahertz (x : BinaryNumber .double) :
    (Binary.finite x).mul megahertz = roundRat .double x.negative (x.magnitude * 10 ^ 6) := by
  obtain ⟨m, hm, hms, hmm⟩ := megahertz_value
  rw [hm, mul_finite, hms, hmm, Bool.bne_false]
  norm_num

theorem product_nonneg (x : BinaryNumber .double) : 0 ≤ x.magnitude * 10 ^ 6 :=
  mul_nonneg x.magnitude_nonneg (by norm_num)

theorem ofMegahertz_negative {x : BinaryNumber .double} (hs : x.negative = true) :
    (ofMegahertz (.finite x)).toNat = 0 := by
  rw [toNat_ofMegahertz, mul_megahertz, hs]
  rcases roundRat_cases double_proper true (product_nonneg x) with ⟨h, hh, hneg, -⟩ | ⟨hh, -⟩
  · rw [hh, wholeHertz_negative hneg]
  · rw [hh]
    rfl

/-- **Megahertz that are not negative**: two roundings, and the clamp to the word. -/
theorem ofMegahertz_nonneg {x : BinaryNumber .double} (hs : x.negative = false) :
    (ofMegahertz (.finite x)).toNat = min (settle (nearest .double (x.magnitude * 10 ^ 6))) maxHertz := by
  rw [toNat_ofMegahertz, mul_megahertz, hs]
  rcases roundRat_cases double_proper false (product_nonneg x) with ⟨h, hh, hneg, hmag⟩ | ⟨hh, hlarge⟩
  · rw [hh, wholeHertz_finite hneg, hmag]
  · have hmax : (maxHertz : ℚ) ≤ nearest .double (x.magnitude * 10 ^ 6) := by
      rw [← nearest_natCast (by decide : maxHertz < 2 ^ 53)]
      refine nearest_mono double_proper (Nat.cast_nonneg _) (le_trans (double_range ?_).le hlarge)
      norm_num [maxHertz]
    rw [hh, min_eq_right ((Nat.le_floor hmax).trans (floor_le_settle _))]
    rfl

theorem ofMegahertz_nonpos {x : BinaryNumber .double} (h : x.value ≤ 0) : (ofMegahertz (.finite x)).toNat = 0 := by
  cases hs : x.negative with
  | true => exact ofMegahertz_negative hs
  | false =>
    have hzero : x.magnitude = 0 := le_antisymm (x.value_of_not_negative hs ▸ h) x.magnitude_nonneg
    have hsettle : settle 0 < 1 := by
      have hlt := (settle_window le_rfl).1
      have hlt' : (settle 0 : ℚ) < 1 := by linarith
      exact_mod_cast hlt'
    rw [ofMegahertz_nonneg hs, hzero, zero_mul, nearest_zero]
    omega

theorem toNat_ofMegahertz_infinite (s : Bool) : (ofMegahertz (.infinite s)).toNat = if s then 0 else maxHertz := by
  obtain ⟨m, hm, hms, hmm⟩ := megahertz_value
  have hne : m.mantissa ≠ 0 := by
    intro h
    simp [BinaryNumber.magnitude, h] at hmm
  rw [toNat_ofMegahertz, hm, mul, if_neg hne, hms, Bool.bne_false]
  cases s <;> rfl

/-! ## Order and window -/

/-- **More megahertz give no less hertz.** -/
theorem ofMegahertz_mono {x y : Double} (h : x.Le y) : ofMegahertz x ≤ ofMegahertz y := by
  obtain ⟨hx, hy, hlt⟩ := h
  rw [UInt32.le_iff_toNat_le]
  cases y with
  | nan => exact absurd rfl hy
  | infinite t =>
    cases t with
    | false =>
      rw [toNat_ofMegahertz_infinite]
      exact Nat.le_of_lt_succ (ofMegahertz x).toNat_lt
    | true =>
      -- nothing but itself is as low
      cases x with
      | nan => exact absurd rfl hx
      | infinite s =>
        cases s with
        | false => cases hlt
        | true => exact le_rfl
      | finite x => cases hlt
  | finite y =>
    cases x with
    | nan => exact absurd rfl hx
    | infinite s =>
      cases s with
      | false => cases hlt
      | true =>
        rw [toNat_ofMegahertz_infinite]
        exact Nat.zero_le _
    | finite x =>
      have hle : x.value ≤ y.value := le_finite.1 ⟨hx, hy, hlt⟩
      rcases le_or_gt x.value 0 with hneg | hpos
      · rw [ofMegahertz_nonpos hneg]
        exact Nat.zero_le _
      · have hxs := BinaryNumber.not_negative_of_pos hpos
        have hys := BinaryNumber.not_negative_of_pos (hpos.trans_le hle)
        rw [x.value_of_not_negative hxs, y.value_of_not_negative hys] at hle
        rw [ofMegahertz_nonneg hxs, ofMegahertz_nonneg hys]
        refine min_le_min_right _ (settle_mono (nearest_mono double_proper (product_nonneg x) ?_))
        gcongr

/-- **What the hertz have to be**, for a product of megahertz with a million: less than a thousandth above it and less
than one below it, within the range of a word; and the ends of the range beyond. -/
def Settled : Double → UInt32 → Prop
  | .finite h, r =>
    (h.value < 0 → r = 0) ∧
    (0 ≤ h.value → h.value < 2 ^ 32 → (r.toNat : ℚ) - 1 / 1000 < h.value ∧ h.value < r.toNat + 1) ∧
    (2 ^ 32 ≤ h.value → r = 4294967295)
  | .infinite s, r => r = if s then 0 else 4294967295
  | .nan, r => r = 0

theorem settled_wholeHertz {hz : Double} {r : UInt32} (hr : r.toNat = wholeHertz hz) : Settled hz r := by
  cases hz with
  | nan => exact UInt32.toNat_inj.1 hr
  | infinite s => cases s <;> exact UInt32.toNat_inj.1 hr
  | finite h =>
    cases hs : h.negative with
    | true =>
      rw [wholeHertz_negative hs] at hr
      refine ⟨fun _ => UInt32.toNat_inj.1 hr, fun h0 _ => ?_, fun hlarge => ?_⟩
      · rw [hr, le_antisymm (BinaryNumber.value_nonpos hs) h0]
        norm_num
      · have := BinaryNumber.value_nonpos hs
        linarith
    | false =>
      have hvalue : h.value = h.magnitude := h.value_of_not_negative hs
      have h0 : 0 ≤ h.magnitude := h.magnitude_nonneg
      obtain ⟨hlow, hhigh⟩ := settle_window h0
      rw [wholeHertz_finite hs] at hr
      have hmax : maxHertz = 4294967295 := rfl
      rw [Settled, hvalue]
      refine ⟨fun hneg => absurd hneg (not_lt.2 h0), fun _ hlt => ?_, fun hlarge => ?_⟩
      · rcases le_total (settle h.magnitude) maxHertz with hle | hle
        · rw [hr, min_eq_left hle]
          exact ⟨hlow, hhigh⟩
        · -- the word is full: the hertz are less than one below the next power of two
          rw [hr, min_eq_right hle, hmax]
          have hle' : (4294967295 : ℚ) ≤ settle h.magnitude := by exact_mod_cast hle
          norm_num at hlt
          constructor <;> push_cast <;> linarith
      · have hle : maxHertz ≤ settle h.magnitude := by
          refine le_trans (Nat.le_floor ?_) (floor_le_settle _)
          rw [hmax]
          norm_num at hlarge ⊢
          linarith
        exact UInt32.toNat_inj.1 (hr.trans (min_eq_right hle))

/-- **Frequencies keep their order, and stay within the window of the snap.** -/
theorem ofMegahertz_ordered :
    (∀ x y : Double, x.Le y → ofMegahertz x ≤ ofMegahertz y) ∧
    ∀ x : Double, Settled (x.mul megahertz) (ofMegahertz x) :=
  ⟨fun _ _ h => ofMegahertz_mono h, fun x => settled_wholeHertz (toNat_ofMegahertz x)⟩

/-- the last double below 868.1 whose hertz lose their fraction -/
def outsideSnap : BinaryNumber .double := ⟨false, 7635888352569968, -43, by decide⟩

/-- the double after it -/
def insideSnap : BinaryNumber .double := ⟨false, 7635888352569969, -43, by decide⟩

/-- the snap lifts a double by a hertz, and no double after it falls below -/
theorem adjacentDoubles_ordered :
    (Binary.finite outsideSnap).Le (.finite insideSnap) ∧
    ofMegahertz (.finite outsideSnap) ≤ ofMegahertz (.finite insideSnap) ∧
    ofMegahertz (.finite outsideSnap) = 868099999 ∧ ofMegahertz (.finite insideSnap) = 868100000 := by
  have hle : (Binary.finite outsideSnap).Le (.finite insideSnap) := ⟨nofun, nofun, by decide +kernel⟩
  exact ⟨hle, ofMegahertz_ordered.1 _ _ hle, by decide +kernel, by decide +kernel⟩

end Frequency

end PacketForwarder
