/-
What a report says of its packet. `Describes` goes through the keys of a report and says of each what its value is as it
is written: the integers and the table entries letter by letter, the two measurements as the exact float rounded to a
count of places, and the payload as a text that decodes to it. The time is a case of its own: it should be a timestamp
of RFC 3339, and some instants are written otherwise.

Results:
- `encode_describes`: the report of a packet with finite measurements is an object with exactly the keys of its
  modulation, in their order; all its values are numbers or plain texts, and they describe the packet. The time is the
  timestamp of its instant exactly if that has one, and otherwise the timestamp of nothing.
- `describes_sample`: a sample packet, and one that came in the year 10000, whose report has no timestamp.
-/
import PacketForwarder.Proofs.Time.Timestamp
import PacketForwarder.Proofs.Uplink.Syntax

namespace PacketForwarder.Uplink

open Json Json.Grammar

variable {p : ReceivePacket} {f : BinaryFormat}

/-! ## Texts of values -/

def withQuotes (s : String) : String := "\"" ++ s ++ "\""

/-- a number, or a text in quotes that needs no escape -/
def IsFlatText (t : String) : Prop := (∃ l : Numeral, t.toList = l.chars) ∨ ∃ s, PlainText s ∧ t = withQuotes s

/-- megahertz with six decimals: hertz with the point set -/
def FrequencyText (hz : Nat) (t : String) : Prop :=
  ∃ ds, Digits 6 (hz % 10 ^ 6) ds ∧ t.toList = (toString (hz / 10 ^ 6)).toList ++ '.' :: ds

/-- a float rounded to a count of places, a half going to the even digit, with the sign of the float -/
def RoundedText (places : Nat) (x : BinaryNumber f) (t : String) : Prop :=
  ∃ l : Numeral, t.toList = l.chars ∧ l.exponent = none ∧ (l.fraction.getD []).length = places ∧
    (l.fraction = none ↔ places = 0) ∧ l.negative = x.negative ∧ IsNearest (x.magnitude * 10 ^ places) l.digits

def statText : CrcStatus → String
  | .ok => "1"
  | .fail => "-1"
  | .absent => "0"

def bandwidthText : Bandwidth → String
  | .khz7 => "BW7.8"
  | .khz10 => "BW10.4"
  | .khz15 => "BW15.6"
  | .khz20 => "BW20.8"
  | .khz31 => "BW31.2"
  | .khz41 => "BW41.7"
  | .khz62 => "BW62.5"
  | .khz125 => "BW125"
  | .khz250 => "BW250"
  | .khz500 => "BW500"

/-- the one spelling of a coding rate that is written -/
def codingRateText : CodingRate → String
  | .fourFifths => "4/5"
  | .fourSixths => "4/6"
  | .fourSevenths => "4/7"
  | .fourEighths => "4/8"

/-! ## Descriptions -/

def DescribesModulation (get : String → Option String) : ReceiveModulation → Prop
  | .lora s =>
    get "modu" = some (withQuotes "LORA") ∧
    get "datr" = some (withQuotes ("SF" ++ toString s.spreadingFactor.toNat ++ bandwidthText s.bandwidth)) ∧
    get "codr" = some (withQuotes (codingRateText s.codingRate)) ∧
    ∃ x t, s.snr = .finite x ∧ get "lsnr" = some t ∧ RoundedText 1 x t
  | .fsk s => get "modu" = some (withQuotes "FSK") ∧ get "datr" = some (toString s.bitrate.toNat)

/-- **What a report says of its packet**, given the texts of its values by their keys -/
structure Describes (p : ReceivePacket) (get : String → Option String) : Prop where
  tmst : get "tmst" = some (toString p.counter.toNat)
  chan : get "chan" = some (toString p.ifChain.toNat)
  rfch : get "rfch" = some (toString p.rfChain.toNat)
  freq : ∃ t, get "freq" = some t ∧ FrequencyText p.frequency.toNat t
  stat : get "stat" = some (statText p.crc)
  modulation : DescribesModulation get p.modulation
  rssi : ∃ x t, p.rssi = .finite x ∧ get "rssi" = some t ∧ RoundedText 0 x t
  size : get "size" = some (toString p.payload.length)
  data : ∃ t, get "data" = some (withQuotes t) ∧ Base64.decode (bytesOf t) = .ok p.payload

theorem frequency_text (hz : UInt32) :
    FrequencyText hz.toNat ((Frequency.toMegahertz hz).fixed frequencyPlaces) := by
  have hlt : hz.toNat % 10 ^ 6 < 10 ^ 6 := Nat.mod_lt _ (by norm_num)
  have hten : tenPow 6 = 10 ^ 6 := rfl
  have hsix : ¬(6 : Nat) = 0 := by decide
  refine ⟨paddedDigits 6 (hz.toNat % 10 ^ 6), digits_paddedDigits (by norm_num) hlt, ?_⟩
  rw [frequencyPlaces, Frequency.toMegahertz_text, placePoint, if_neg hsix, hten, zeroPadded_eq]
  simp

theorem rounded_text (places : Nat) (x : BinaryNumber f) :
    RoundedText places x ((Binary.finite x).fixed places) := by
  have hunits : IsNearest (x.magnitude * 10 ^ places) (Binary.units places x) :=
    halfEven_isNearest (mul_nonneg x.magnitude_nonneg (by positivity))
  have hchars := Binary.fixed_chars places x
  have hfraction := isFraction_fractionOf places (Binary.units places x)
  generalize Binary.units places x = units at *
  refine ⟨.plain x.negative (units / tenPow places) (fractionOf places units) hfraction, ?_, rfl, ?_⟩
  · rw [hchars, String.toList_ofList, Numeral.plain_chars]
  rcases Nat.eq_zero_or_pos places with rfl | hp
  · have hdigits : IsNearest (x.magnitude * 10 ^ 0) (Decimal.ofDigits (Nat.toDigits 10 (units / 1) ++ [])) := by
      rwa [Nat.div_one, List.append_nil, Decimal.ofDigits_toDigits]
    exact ⟨rfl, iff_of_true rfl rfl, rfl, hdigits⟩
  · have hlt : units % tenPow places < 10 ^ places := Nat.mod_lt _ (tenPow_pos places)
    have hsome : fractionOf places units = some (paddedDigits places (units % tenPow places)) := if_neg hp.ne'
    simp only [Numeral.plain, Numeral.digits, hsome, Option.getD_some]
    refine ⟨length_paddedDigits hp hlt, iff_of_false (Option.some_ne_none _) hp.ne', trivial, ?_⟩
    rw [Decimal.ofDigits_placePoint _ hp]
    exact hunits

/-! ## The members of a report -/

def reportTexts (p : ReceivePacket) : List (String × String) := (report p).map fun c => (c.1, c.2.text)

theorem names_reportTexts (p : ReceivePacket) : names (reportTexts p) = reportKeys p.modulation.kind := by
  rw [← names_report, names, reportTexts, List.map_map]
  rfl

theorem lookup_report {key : String} {c : Cell} (h : (key, c) ∈ report p) :
    (reportTexts p).lookup key = some c.text := by
  refine lookup_of_mem ?_ (List.mem_map_of_mem h)
  rw [names_reportTexts]
  exact nodup_reportKeys _

theorem isFlatText_of_isFlat {c : Cell} (h : c.IsFlat) : IsFlatText c.text := by
  cases c with
  | bare t => exact Or.inl h
  | inQuotes t => exact Or.inr ⟨t, h, rfl⟩

theorem statText_eq (c : CrcStatus) : toString c.code = statText c := by
  cases c <;> rfl

theorem datarate_text (s : LoraReceive) :
    (datarate s).text = "SF" ++ toString s.spreadingFactor.toNat ++ bandwidthText s.bandwidth := by
  have hlabel : s.bandwidth.datarateLabel = bandwidthText s.bandwidth := by
    cases s.bandwidth <;> rfl
  rw [Datarate.text, datarate, hlabel]
  rfl

theorem codingRateText_eq (c : CodingRate) : c.fraction = codingRateText c := by
  cases c <;> rfl

theorem mem_report {c : String × Cell} (h : c ∈ modulationReport p.modulation) : c ∈ report p :=
  List.mem_append_left _ (List.mem_append_right _ h)

theorem describes_modulation (hsnr : ∀ s, p.modulation = .lora s → ∃ x, s.snr = .finite x) :
    DescribesModulation (fun key => (reportTexts p).lookup key) p.modulation := by
  have hmodu : ("modu", Cell.inQuotes p.modulation.kind.wireName) ∈ report p := by simp [report]
  have hlookup := lookup_report hmodu
  cases hm : p.modulation with
  | lora s =>
    obtain ⟨x, hx⟩ := hsnr s hm
    have hmem : ∀ c ∈ modulationReport (.lora s), c ∈ report p := fun c hc => mem_report (hm ▸ hc)
    simp only [modulationReport, List.forall_mem_cons, datarate_text, codingRateText_eq, hx] at hmem
    obtain ⟨hdatr, hcodr, hlsnr, -⟩ := hmem
    rw [hm] at hlookup
    exact ⟨hlookup, lookup_report hdatr, lookup_report hcodr, x, _, hx, lookup_report hlsnr, rounded_text snrPlaces x⟩
  | fsk s =>
    have hmem : ∀ c ∈ modulationReport (.fsk s), c ∈ report p := fun c hc => mem_report (hm ▸ hc)
    simp only [modulationReport, List.forall_mem_cons] at hmem
    rw [hm] at hlookup
    exact ⟨hlookup, lookup_report hmem.1⟩

/-- **Every value of a report describes its part of the packet.** -/
theorem describes_report (h : Measured p) : Describes p fun key => (reportTexts p).lookup key := by
  obtain ⟨x, hx⟩ := h.rssi
  have hmem : ∀ c ∈ report p, (reportTexts p).lookup c.1 = some c.2.text := fun c hc => lookup_report hc
  simp only [report, List.forall_mem_append, List.forall_mem_cons, hx] at hmem
  obtain ⟨⟨⟨htmst, -, hchan, hrfch, hfreq, hstat, -⟩, -⟩, hrssi, hsize, hdata, -⟩ := hmem
  exact {
    tmst := htmst
    chan := hchan
    rfch := hrfch
    freq := ⟨_, hfreq, frequency_text p.frequency⟩
    stat := hstat.trans (congrArg some (statText_eq p.crc))
    modulation := describes_modulation h.snr
    rssi := ⟨x, _, hx, hrssi, rounded_text rssiPlaces x⟩
    size := hsize
    data := ⟨_, hdata, Base64.decode_eq_ok_iff.2 rfl⟩ }

/-- **A report is one flat object that describes its packet**, and its time is a timestamp where there is one. -/
theorem encode_describes (h : Measured p) : ∃ ms : List (String × String),
    ObjectText (encode p).toList (ms.map fun m => (m.1.toList, m.2.toList)) ∧
    names ms = reportKeys p.modulation.kind ∧ (names ms).Nodup ∧ (∀ m ∈ ms, PlainText m.1 ∧ IsFlatText m.2) ∧
    Describes p (fun key => ms.lookup key) ∧
    ∃ time, ms.lookup "time" = some (withQuotes time) ∧ p.receivedAt.WrittenText time.toList ∧
      (p.receivedAt.TimestampText time.toList ↔ p.receivedAt.HasTimestamp) ∧
      (IsTimestamp time.toList ↔ p.receivedAt.HasTimestamp) := by
  have htime : ("time", Cell.inQuotes p.receivedAt.toSecondsText) ∈ report p := by simp [report]
  refine ⟨reportTexts p, ?_, names_reportTexts p, ?_, ?_, describes_report h, _, lookup_report htime,
    Instant.writtenText_toSecondsText _, Instant.timestampText_iff, Instant.isTimestamp_iff⟩
  · have hobject := encode_object h
    rw [reportTexts, List.map_map]
    exact hobject
  · rw [names_reportTexts]
    exact nodup_reportKeys _
  · intro m hm
    obtain ⟨c, hc, rfl⟩ := List.mem_map.1 hm
    exact ⟨plain_keys hc, isFlatText_of_isFlat (isFlat_report_iff.2 h c hc)⟩

/-- a packet that came in the first second after the years of four digits -/
def latePacket : ReceivePacket := { ReceivePacket.sample with receivedAt := ⟨253402300800, 0, by decide⟩ }

/-- the sample packet is described with its time, and the late one has no timestamp in its report -/
theorem describes_sample :
    Measured ReceivePacket.sample ∧ Measured latePacket ∧
    (∃ (ms : List (String × String)) (time : String),
      ObjectText (encode ReceivePacket.sample).toList (ms.map fun m => (m.1.toList, m.2.toList)) ∧
      names ms = reportKeys .lora ∧ Describes ReceivePacket.sample (fun key => ms.lookup key) ∧
      ms.lookup "time" = some (withQuotes time) ∧ ReceivePacket.sample.receivedAt.TimestampText time.toList) ∧
    ∃ (ms : List (String × String)) (time : String),
      ObjectText (encode latePacket).toList (ms.map fun m => (m.1.toList, m.2.toList)) ∧
      ms.lookup "time" = some (withQuotes time) ∧ ¬IsTimestamp time.toList := by
  have hlate : Measured latePacket := ⟨measured_sample.rssi, measured_sample.snr⟩
  have hstamp : ReceivePacket.sample.receivedAt.HasTimestamp := ⟨by decide, by decide, fun h => absurd h.2 (by decide)⟩
  obtain ⟨ms, hobject, hnames, -, -, hdescribes, time, hlookup, -, htime, -⟩ := encode_describes measured_sample
  obtain ⟨ms', hobject', -, -, -, -, time', hlookup', -, -, hnone⟩ := encode_describes hlate
  exact ⟨measured_sample, hlate, ⟨ms, time, hobject, hnames, hdescribes, hlookup, htime.2 hstamp⟩,
    ms', time', hobject', hlookup', fun h => absurd (hnone.1 h).last (by decide)⟩

end PacketForwarder.Uplink
