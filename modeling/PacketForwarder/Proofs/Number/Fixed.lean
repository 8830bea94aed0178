/-
The text of a number with fixed places: a sign, digits, and perhaps a point with more digits (`numberChars`). It spells
the units of the last place that the number was rounded to, so reading it gives the double nearest to these units
(`ofText?_fixed`), which is finite for every number of moderate size (`toBinary_units`).
-/
import PacketForwarder.Number.Fixed
import PacketForwarder.Proofs.Frequency
import PacketForwarder.Proofs.Text.Runs

namespace PacketForwarder

/-! ## Characters -/

def numberChars (negative : Bool) (n : Nat) (fraction : Option (List Char)) : List Char :=
  (if negative then ['-'] else []) ++ Nat.toDigits 10 n ++ fraction.elim [] fun ds => '.' :: ds

/-- the digits after a point, at least one, if there is a point -/
def IsFraction (fraction : Option (List Char)) : Prop := ∀ ds ∈ fraction, ds ≠ [] ∧ ∀ c ∈ ds, c.isDigit = true

theorem isFraction_none : IsFraction none := nofun

def fractionOf (places units : Nat) : Option (List Char) :=
  if places = 0 then none else some (paddedDigits places (units % tenPow places))

theorem isFraction_fractionOf (places units : Nat) : IsFraction (fractionOf places units) := by
  intro ds hds
  unfold fractionOf at hds
  split_ifs at hds with hp
  · cases hds
  obtain rfl := Option.some.inj hds
  refine ⟨fun hnil => ?_, fun c hc => isDigit_of_mem_paddedDigits hc⟩
  have hlt : units % tenPow places < 10 ^ places := Nat.mod_lt _ (tenPow_pos places)
  have hlen := length_paddedDigits (Nat.pos_of_ne_zero hp) hlt
  rw [hnil] at hlen
  exact hp hlen.symm

theorem natText_chars (n : Nat) : toString n = String.ofList (numberChars false n none) := by
  rw [Nat.toString_eq_ofList_toDigits]
  simp [numberChars]

theorem placePoint_chars (places units : Nat) :
    placePoint places units = String.ofList (numberChars false (units / tenPow places) (fractionOf places units)) := by
  unfold placePoint fractionOf
  split_ifs with hp
  · have hone : tenPow 0 = 1 := rfl
    rw [hp, hone, Nat.div_one, natText_chars]
  · rw [natText_chars, zeroPadded_eq]
    apply String.toList_injective
    simp [numberChars]

namespace Binary

variable {f : BinaryFormat}

/-- **The characters of a fixed text** -/
theorem fixed_chars (places : Nat) (x : BinaryNumber f) : fixed places (.finite x) = String.ofList
    (numberChars x.negative (units places x / tenPow places) (fractionOf places (units places x))) := by
  rw [fixed_finite, placePoint_chars]
  cases x.negative with
  | false => simp [numberChars]
  | true =>
    apply String.toList_injective
    simp [numberChars]

end Binary

/-! ## Reading the text -/

theorem unsigned?_chars {n : Nat} {ds : List Char} (negative : Bool) (hds : ∀ c ∈ ds, c.isDigit = true) :
    Decimal.unsigned? negative (numberChars false n (some ds)) =
      some ⟨negative, Decimal.ofDigits (Nat.toDigits 10 n ++ ds), 0 - ds.length⟩ := by
  have hwhole : Decimal.spanDigits (Nat.toDigits 10 n ++ '.' :: ds) = (Nat.toDigits 10 n, '.' :: ds) :=
    span_run (fun c hc => isDigit_of_mem_toDigits hc) (endsRun_cons.2 rfl)
  have hfraction : Decimal.spanDigits ds = (ds, []) := by
    have h := span_run hds endsRun_nil
    rwa [List.append_nil] at h
  have hne : Nat.toDigits 10 n ≠ [] := Nat.toDigits_ne_nil
  have hchars : numberChars false n (some ds) = Nat.toDigits 10 n ++ '.' :: ds := by simp [numberChars]
  unfold Decimal.unsigned?
  rw [hchars, hwhole]
  simp only [hfraction]
  simp [hne, Decimal.exponent?]

namespace Binary

/-- no word begins with a digit -/
theorem word_ne_of_digit {w : String} {c : Char} {cs : List Char} (hc : c.isDigit = true)
    (hw : w.toList.head?.any Char.isDigit = false) : String.ofList ((c :: cs).map Char.toLower) ≠ w := by
  have hrange : 48 ≤ c.toNat ∧ c.toNat ≤ 57 := by simpa [Char.isDigit, UInt32.le_iff_toNat_le] using hc
  have hlower : c.toLower = c := by
    have hupper : ¬(c.val ≥ 'A'.val ∧ c.val ≤ 'Z'.val) := by
      intro h
      have hup : 65 ≤ c.toNat ∧ c.toNat ≤ 90 := by simpa [UInt32.le_iff_toNat_le] using h
      omega
    exact dif_neg hupper
  rintro rfl
  have hdigit : (String.ofList ((c :: cs).map Char.toLower)).toList.head?.any Char.isDigit = true := by
    simpa [hlower] using hc
  rw [hw] at hdigit
  cases hdigit

theorem ofText?_digit {f : BinaryFormat} {c : Char} {cs : List Char} (hc : c.isDigit = true) :
    ofText? f (String.ofList (c :: cs)) = (Decimal.unsigned? false (c :: cs)).map (Decimal.toBinary f) := by
  unfold ofText?
  rw [String.toList_ofList]
  split
  rename_i negative rest hsign
  split at hsign
  · rename_i heq
    cases heq
    exact absurd hc (by decide)
  · rename_i heq
    cases heq
    exact absurd hc (by decide)
  · cases hsign
    simp only
    rw [if_neg (not_or.2 ⟨word_ne_of_digit hc (by decide), word_ne_of_digit hc (by decide)⟩),
      if_neg (word_ne_of_digit hc (by decide))]

theorem ofText?_minus {f : BinaryFormat} {c : Char} {cs : List Char} (hc : c.isDigit = true) :
    ofText? f (String.ofList ('-' :: c :: cs)) = (Decimal.unsigned? true (c :: cs)).map (Decimal.toBinary f) := by
  unfold ofText?
  rw [String.toList_ofList]
  simp only
  rw [if_neg (not_or.2 ⟨word_ne_of_digit hc (by decide), word_ne_of_digit hc (by decide)⟩),
    if_neg (word_ne_of_digit hc (by decide))]

theorem ofText?_chars {n : Nat} {ds : List Char} (negative : Bool) (hds : ∀ c ∈ ds, c.isDigit = true) :
    ofText? .double (String.ofList (numberChars negative n (some ds))) =
      some (Decimal.toBinary .double ⟨negative, Decimal.ofDigits (Nat.toDigits 10 n ++ ds), 0 - ds.length⟩) := by
  have hread := unsigned?_chars (n := n) negative hds
  cases hdigits : Nat.toDigits 10 n with
  | nil => exact absurd hdigits Nat.toDigits_ne_nil
  | cons c cs =>
    have hc : c.isDigit = true := isDigit_of_mem_toDigits (hdigits ▸ List.mem_cons_self)
    have hchars : numberChars false n (some ds) = c :: (cs ++ '.' :: ds) := by simp [numberChars, hdigits]
    rw [hdigits] at hread
    cases negative with
    | false =>
      rw [hchars] at hread ⊢
      rw [ofText?_digit hc, hread]
      rfl
    | true =>
      have hminus : numberChars true n (some ds) = '-' :: numberChars false n (some ds) := rfl
      rw [hminus, hchars, ofText?_minus hc, ← hchars, hread]
      rfl

/-- **A fixed text spells its units.** -/
theorem ofText?_fixed {f : BinaryFormat} {places : Nat} (hp : 0 < places) (x : BinaryNumber f) :
    ofText? .double (fixed places (.finite x)) =
      some (Decimal.toBinary .double ⟨x.negative, units places x, -(places : Int)⟩) := by
  have hlt : units places x % tenPow places < 10 ^ places := Nat.mod_lt _ (tenPow_pos places)
  have hfraction : fractionOf places (units places x) = some (paddedDigits places (units places x % tenPow places)) :=
    if_neg hp.ne'
  rw [fixed_chars, hfraction, ofText?_chars _ fun c hc => isDigit_of_mem_paddedDigits hc,
    Decimal.ofDigits_placePoint _ hp, length_paddedDigits hp hlt, zero_sub]

/-- **Units of moderate size are near a finite double.** -/
theorem toBinary_units {f : BinaryFormat} {places : Nat} (hp : places ≤ 6) (x : BinaryNumber f)
    (hx : x.magnitude ≤ 2 ^ 128) :
    Decimal.toBinary .double ⟨x.negative, units places x, -(places : Int)⟩ =
        roundRat .double x.negative (units places x / 10 ^ places) ∧
      ∃ y : BinaryNumber .double, roundRat .double x.negative (units places x / 10 ^ places) = .finite y := by
  have hten : (1 : ℚ) ≤ 10 ^ places := one_le_pow₀ (by norm_num)
  have hnonneg : 0 ≤ x.magnitude * 10 ^ places := mul_nonneg x.magnitude_nonneg (by positivity)
  have herr := (abs_le.1 (halfEven_error hnonneg)).2
  have hunits : (units places x : ℚ) ≤ (2 ^ 128 + 1) * 10 ^ places := by
    have hmul := mul_le_mul_of_nonneg_right hx (by positivity : (0 : ℚ) ≤ 10 ^ places)
    unfold units
    linarith
  refine ⟨?_, ?_⟩
  · have hlt : (units places x : ℚ) < 10 ^ 45 := by
      calc (units places x : ℚ) ≤ (2 ^ 128 + 1) * 10 ^ places := hunits
        _ ≤ (2 ^ 128 + 1) * 10 ^ 6 := by gcongr; norm_num
        _ < 10 ^ 45 := by norm_num
    have hlt' : units places x < 10 ^ 45 := by exact_mod_cast hlt
    exact Decimal.toBinary_places _ _ _ (hlt'.trans_le (Nat.pow_le_pow_right (by norm_num) (by decide)))
      (hp.trans (by decide))
  · have hq : (units places x : ℚ) / 10 ^ places ≤ 2 ^ 200 := by
      rw [div_le_iff₀ (by positivity)]
      refine hunits.trans (mul_le_mul_of_nonneg_right (by norm_num) (by positivity))
    obtain ⟨y, hy, -⟩ := double_error x.negative (by positivity) hq
    exact ⟨y, hy⟩

end Binary

end PacketForwarder
