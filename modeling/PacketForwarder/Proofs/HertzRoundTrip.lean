/-
Whole hertz are never lost. A frequency goes from hertz to megahertz and back in three ways, and each of them keeps
every value of its word:

- as a double, by the two conversions of `Frequency`;
- as a literal: a request may spell its megahertz by any numeral, with zeros at its end or with an exponent, and the
  packet has the hertz (`decode_literal`);
- as the text of a report, whose six decimals are read as the same megahertz (`report_frequency`).

`lossless` has all three.
-/
import PacketForwarder.Proofs.Downlink.Acceptance
import PacketForwarder.Proofs.Downlink.TextAgreement
import PacketForwarder.Proofs.Json.ValueTexts
import PacketForwarder.Proofs.Uplink.Meaning

namespace PacketForwarder.Frequency

open Json Binary

variable {hz : UInt32} {text : Bytes} {v w : Json} {policy : SchedulePolicy} {ms : List (String × Bytes)}

/-! ## As a double -/

theorem ofMegahertz_toMegahertz (hz : UInt32) : ofMegahertz (toMegahertz hz) = hz := by
  rw [toMegahertz_eq, ofMegahertz_quotient hz.toNat_lt]
  exact UInt32.ofNat_toNat

theorem ofMegahertz_minusZero : ofMegahertz (round .double true 0 1) = 0 := by decide +kernel

theorem ofMegahertz_signed {s : Bool} (hs : s = true → hz = 0) :
    ofMegahertz (roundRat .double s (hz.toNat / 10 ^ 6)) = hz := by
  cases s with
  | false =>
    rw [ofMegahertz_quotient hz.toNat_lt]
    exact UInt32.ofNat_toNat
  | true =>
    obtain rfl := hs rfl
    have hround := ofMegahertz_minusZero
    rw [round_eq _ _ _ Nat.one_pos] at hround
    simpa using hround

/-! ## As a literal -/

/-- what spells megahertz has no sign, unless they are zero -/
theorem magnitude_literal {l : Numeral} (hl : l.value = hz.toNat / 10 ^ 6) :
    l.magnitude = hz.toNat / 10 ^ 6 ∧ (l.negative = true → hz = 0) := by
  have hq := quotient_nonneg hz.toNat
  have hm := l.magnitude_nonneg
  unfold Numeral.value at hl
  cases hs : l.negative with
  | false =>
    rw [hs] at hl
    exact ⟨by simpa using hl, nofun⟩
  | true =>
    simp only [hs, if_true, neg_one_mul] at hl
    have hzero : (hz.toNat / 10 ^ 6 : ℚ) = 0 := by linarith
    refine ⟨by linarith, fun _ => ?_⟩
    have hnat : hz.toNat = 0 := by simpa using hzero
    exact UInt32.toNat_inj.1 hnat

theorem quotient_ample {n : Nat} (hn : n < 2 ^ 32) :
    (n ≠ 0 → (10 : ℚ) ^ (-(Decimal.ampleDigits : Int)) ≤ n / 10 ^ 6) ∧
      (n / 10 ^ 6 : ℚ) < 10 ^ (Decimal.ampleDigits : Int) := by
  refine ⟨fun hne => ?_, ?_⟩
  · have hone : (1 : ℚ) ≤ n := by exact_mod_cast Nat.one_le_iff_ne_zero.2 hne
    calc (10 : ℚ) ^ (-(Decimal.ampleDigits : Int)) ≤ 10 ^ (-6 : Int) := zpow_le_zpow_right₀ (by norm_num) (by decide)
      _ = 1 / 10 ^ 6 := by norm_num
      _ ≤ n / 10 ^ 6 := div_le_div_of_nonneg_right hone (by norm_num)
  · have hlt : (n : ℚ) < 2 ^ 32 := by exact_mod_cast hn
    calc (n / 10 ^ 6 : ℚ) ≤ n := div_le_self (Nat.cast_nonneg n) (by norm_num)
      _ < 2 ^ 32 := hlt
      _ ≤ 10 ^ (10 : Int) := by norm_num
      _ ≤ 10 ^ (Decimal.ampleDigits : Int) := zpow_le_zpow_right₀ (by norm_num) (by decide)

/-- **Any spelling of the megahertz is read as the hertz.** -/
theorem ofMegahertz_literal {l : Numeral} (hl : l.value = hz.toNat / 10 ^ 6) (hw : l.head? = some w.head) :
    ∃ x, w.toDouble? = some x ∧ ofMegahertz x = hz := by
  obtain ⟨hmagnitude, hsign⟩ := magnitude_literal hl
  obtain ⟨hlow, hhigh⟩ := quotient_ample hz.toNat_lt
  have hdigits : l.digits ≠ 0 → hz.toNat ≠ 0 := by
    intro hdigits hzero
    have hscale : (10 : ℚ) ^ l.scale ≠ 0 := zpow_ne_zero _ (by norm_num)
    rw [hzero, Nat.cast_zero, zero_div] at hmagnitude
    exact mul_ne_zero (Nat.cast_ne_zero.2 hdigits) hscale hmagnitude
  rw [← hmagnitude] at hlow hhigh
  refine ⟨_, Numeral.toDouble?_nearest hw (fun h => hlow (hdigits h)) hhigh, ?_⟩
  rw [hmagnitude]
  exact ofMegahertz_signed hsign

/-- **A request with any spelling of the megahertz** is decoded to the hertz, as a value and as the text. -/
theorem decode_literal {l : Numeral} (hl : l.value = hz.toNat / 10 ^ 6) (hroot : RootTexts text ms)
    (hkey : ms.reverse.lookup "freq" = some l.bytes) (hv : Json.parse text = .ok v)
    (h : Downlink.Acceptable (· ≤ 4294967295) policy v) :
    ∃ p, Downlink.decode policy v = .ok p ∧ p.frequency = hz ∧
      (policy = .precedence → ¬Request.RepeatsField text → Downlink.decodeText text = .ok p) := by
  obtain ⟨w, hw, hhead⟩ := hroot.numeral hkey hv
  obtain ⟨x, hx, hhertz⟩ := ofMegahertz_literal hl hhead
  cases v with
  | obj fields =>
    have hnodup : (names fields).Nodup := parse_object hv ▸ (sortMembers_sorted _).nodup
    obtain ⟨r, m, bytes, hr, hp⟩ := Downlink.request_of_acceptable h
    have hfreq : x = r.freq := by
      have hgiven := hr.freq
      rw [hw, Option.bind_some, hx] at hgiven
      exact Option.some.inj hgiven
    refine ⟨_, (Downlink.decode_object hnodup).2 ⟨r, hr, hp⟩, (congrArg ofMegahertz hfreq.symm).trans hhertz, ?_⟩
    rintro rfl hdistinct
    have htext : Request.ofText text = .ok r :=
      (Request.ofText_eq_ok_iff hv).2 ⟨hdistinct, (Request.ofJson_object hnodup).2 hr⟩
    unfold Downlink.decodeText
    rw [htext]
    exact hp
  | null | bool | int | float | str | arr => cases hw

/-! ## As the text of a report -/

/-- **The text of a report** spells the hertz with six decimals, and is read as the megahertz that they were made of. -/
theorem report_frequency {p : ReceivePacket} (hp : p.frequency = hz) : ∃ t x,
    (Uplink.reportTexts p).lookup "freq" = some t ∧ Uplink.FrequencyText hz.toNat t ∧
      Json.parse (bytesOf t) = .ok (.float x) ∧ ofMegahertz (.finite x) = hz ∧
      (Uplink.Measured p → ∀ v, Json.parse (bytesOf (Uplink.encode p)) = .ok v → v.get? "freq" = some (.float x)) := by
  obtain ⟨x, hx, hvalue, -⟩ := Uplink.Cell.value?_frequency hz
  have hmem : ("freq", Uplink.Cell.bare ((toMegahertz hz).fixed Uplink.frequencyPlaces)) ∈ Uplink.report p := by
    simp [Uplink.report, hp]
  refine ⟨_, x, Uplink.lookup_report hmem, Uplink.frequency_text hz, Outcome.toOption_eq_some.1 hvalue, ?_, ?_⟩
  · rw [← hx]
    exact ofMegahertz_toMegahertz hz
  · intro hmeasured v hv
    exact (Uplink.get?_encode hmeasured hv hmem).trans hvalue

/-! ## All ways -/

/-- **Whole hertz are never lost**: not as a double, not as a literal of a request and not as the text of a report. -/
theorem lossless (hz : UInt32) :
    ofMegahertz (toMegahertz hz) = hz ∧
    (∀ l : Numeral, l.value = hz.toNat / 10 ^ 6 →
      ∀ (text : Bytes) (ms : List (String × Bytes)) (v : Json) (policy : SchedulePolicy), RootTexts text ms →
      ms.reverse.lookup "freq" = some l.bytes → Json.parse text = .ok v →
      Downlink.Acceptable (· ≤ 4294967295) policy v →
        ∃ p, Downlink.decode policy v = .ok p ∧ p.frequency = hz ∧
          (policy = .precedence → ¬Request.RepeatsField text → Downlink.decodeText text = .ok p)) ∧
    (∀ p : ReceivePacket, p.frequency = hz → ∃ t x,
      (Uplink.reportTexts p).lookup "freq" = some t ∧ Uplink.FrequencyText hz.toNat t ∧
        Json.parse (bytesOf t) = .ok (.float x) ∧ ofMegahertz (.finite x) = hz ∧
        (Uplink.Measured p → ∀ v, Json.parse (bytesOf (Uplink.encode p)) = .ok v →
          v.get? "freq" = some (.float x))) :=
  ⟨ofMegahertz_toMegahertz hz, fun _ hl _ _ _ _ hroot hkey hv h => decode_literal hl hroot hkey hv h,
    fun _ hp => report_frequency hp⟩

/-! ## A request -/

/-- 868.1, written with an exponent -/
def channelLiteral : Numeral where
  negative := false
  whole := ['8', '6', '8', '1']
  fraction := none
  exponent := some ⟨false, some true, ['1'], by decide, List.all_eq_true.1 (by decide)⟩
  isDigits := List.all_eq_true.1 (by decide)
  isWhole := ⟨by decide, by decide⟩
  isFraction := isFraction_none

theorem channel_value : channelLiteral.value = (868100000 : UInt32).toNat / 10 ^ 6 := by
  have hdigits : channelLiteral.digits = 8681 := by decide
  have hscale : channelLiteral.scale = -1 := by decide
  have hsign : channelLiteral.negative = false := rfl
  have hhertz : (868100000 : UInt32).toNat = 868100000 := by decide
  rw [Numeral.value, Numeral.magnitude, hdigits, hscale, hsign, hhertz]
  norm_num

theorem channel_head : ∃ x, channelLiteral.head? = some (.float x) := by
  obtain ⟨x, hx, -⟩ := double_error false (q := 8681 / 10 ^ 1) (by norm_num) (by norm_num)
  have hample : 8681 < 10 ^ Decimal.ampleDigits :=
    lt_of_lt_of_le (by norm_num : 8681 < 10 ^ 4) (Nat.pow_le_pow_right (by norm_num) (by decide))
  have hbinary := Decimal.toBinary_places false 8681 1 hample (by decide)
  refine ⟨x, ?_⟩
  have hdecimal : Decimal.toBinary .double ⟨channelLiteral.negative, channelLiteral.digits, channelLiteral.scale⟩ =
      .finite x := hbinary.trans hx
  rw [Numeral.head?_eq, hdecimal]
  rfl

def naturalLiteral (n : Nat) : Numeral := .plain false n none isFraction_none

def textLiteral (s : String) : Bytes := '"'.toUInt8 :: (bytesOf s ++ ['"'.toUInt8])

/-- an FSK request with no more than it needs, in the order of the keys; each value with its text -/
def channelFields (x : BinaryNumber .double) : List (String × Bytes × Json) :=
  [ ("data", textLiteral "", .str ""),
    ("datr", (naturalLiteral 50000).bytes, .int 50000),
    ("freq", channelLiteral.bytes, .float x),
    ("modu", textLiteral "FSK", .str "FSK"),
    ("rfch", (naturalLiteral 0).bytes, .int 0)]

theorem reads_channelFields {x : BinaryNumber .double} (hx : channelLiteral.head? = some (.float x)) :
    ∀ f ∈ channelFields x, ∀ tail, Reader.Delimited tail → Reader.Reads (f.2.1 ++ tail) (some f.2.2) tail := by
  have htext : ∀ {s}, PlainText s → ∀ tail, Reader.Delimited tail →
      Reader.Reads (textLiteral s ++ tail) (some (.str s)) tail := by
    intro s hs tail _
    have hreads : Reader.Reads ('"'.toUInt8 :: (bytesOf s ++ '"'.toUInt8 :: tail)) (some (.str s)) tail :=
      Reader.reads_text hs
    simpa [textLiteral] using hreads
  have hnumber : ∀ {l : Numeral} {w}, l.head?.bind Reader.scalar? = some w → ∀ tail, Reader.Delimited tail →
      Reader.Reads (l.bytes ++ tail) (some w) tail := by
    intro l w hw tail htail
    rw [← hw]
    exact Reader.reads_numeral l htail.endsNumber
  simp only [channelFields, List.forall_mem_cons]
  refine ⟨htext (by decide), hnumber ?_, hnumber ?_, htext (by decide), hnumber ?_, List.forall_mem_nil _⟩
  · rfl
  · rw [hx]
    rfl
  · rfl

def channelValues (x : BinaryNumber .double) : List (String × Json) := (channelFields x).map fun f => (f.1, f.2.2)

theorem acceptable_channelValues (x : BinaryNumber .double) :
    Downlink.Acceptable (· ≤ 4294967295) .precedence (.ofMembers (channelValues x)) where
  imme := Or.inl (get?_ofMembers _)
  ncrc := Or.inl (get?_ofMembers _)
  ipol := Or.inl (get?_ofMembers _)
  tmst := Or.inl (get?_ofMembers _)
  tmms := Or.inl (get?_ofMembers _)
  freq := ⟨.float x, get?_ofMembers _, Or.inr ⟨x, rfl⟩⟩
  rfch := ⟨.int 0, get?_ofMembers _, 0, rfl, by decide⟩
  powe := Or.inl (get?_ofMembers _)
  prea := Or.inl (get?_ofMembers _)
  fdev := Or.inl (get?_ofMembers _)
  modu := ⟨.str "FSK", get?_ofMembers _, "FSK", rfl⟩
  data := ⟨.str "", get?_ofMembers _, "", rfl⟩
  codr := Or.inl (get?_ofMembers _)
  modulation := Or.inr ⟨get?_ofMembers _, .int 50000, get?_ofMembers _, Or.inl ⟨50000, rfl⟩⟩
  payload := ⟨[], get?_ofMembers _⟩
  schedule := nofun

def channelText : String := "\x7b\"data\":\"\",\"datr\":50000,\"freq\":8681e-1,\"modu\":\"FSK\",\"rfch\":0\x7d"

theorem channel_decoded : ∃ v p, Json.parse (bytesOf channelText) = .ok v ∧
    Downlink.decode .precedence v = .ok p ∧ p.frequency = 868100000 ∧
    Downlink.decodeText (bytesOf channelText) = .ok p := by
  obtain ⟨x, hx⟩ := channel_head
  have hbytes : bytesOf channelText = objectBytes Prod.fst (channelFields x) := by
    simp only [channelText, objectBytes, channelFields, textLiteral, Reader.membersBytes, bytesOf_eq]
    rfl
  have hkeys : ∀ f ∈ channelFields x, PlainText f.1 := by
    simp only [channelFields, List.forall_mem_cons]
    exact ⟨by decide, by decide, by decide, by decide, by decide, List.forall_mem_nil _⟩
  have hblanks : ∀ f ∈ channelFields x, ∃ c tail, f.2.1 = c :: tail ∧ Reader.isBlank c = false := by
    simp only [channelFields, List.forall_mem_cons]
    exact ⟨⟨_, _, rfl, by decide⟩, ⟨_, _, rfl, by decide⟩, ⟨_, _, rfl, by decide⟩, ⟨_, _, rfl, by decide⟩,
      ⟨_, _, rfl, by decide⟩, List.forall_mem_nil _⟩
  have hne : channelFields x ≠ [] := List.cons_ne_nil _ _
  have hroot := rootTexts_written hne hkeys (reads_channelFields hx) hblanks
  have hreads := rootReads_written (o := fun m => some m.2) hne hkeys (reads_channelFields hx)
  have hreadable : Readable ((channelFields x).map fun f => (f.1, some f.2.2)) (channelValues x) := rfl
  have hparse := (parse_reads hreads).2 ⟨_, hreadable, rfl⟩
  have hdistinct : ¬Request.RepeatsField (objectBytes Prod.fst (channelFields x)) := by
    have hnames : names (channelValues x) = ["data", "datr", "freq", "modu", "rfch"] := rfl
    rintro ⟨k, hk⟩
    rw [rootMembers_reads hreads hreadable, hnames] at hk
    exact absurd (List.nodup_iff_count_le_one.1 (by decide) k.name) (not_le.2 hk)
  have hkey : ((channelFields x).map fun f => (f.1, f.2.1)).reverse.lookup "freq" = some channelLiteral.bytes := by
    rfl
  rw [hbytes]
  obtain ⟨p, hp, hfrequency, htext⟩ := (lossless 868100000).2.1 channelLiteral channel_value _ _ _ .precedence hroot
    hkey hparse (acceptable_channelValues x)
  exact ⟨_, p, hparse, hp, hfrequency, htext rfl hdistinct⟩

end PacketForwarder.Frequency
