/-
The two encoders of a report. `Uplink.encode` writes the text and `Uplink.encodeJson` gives the value, each with its own
code, and both are meant to round alike. For the frequency and the signal to noise ratio they do: the value is what the
same text is read as. The signal strength is written as digits but held as a signed word of 64 bits, so the two part
where the digits spell something else than such a word.

- `parse_encode_iff`: the text is read as the value exactly if the strength is the same in both (`SameStrength`) and the
  size is an integer to the reader.
- Strengths from minus a half up to a negative zero are written as `-0`, which is read as a float; the value is the
  integer zero. Strengths from `2 ^ 63` on, or below `-2 ^ 63`, are written out; the value is null.
-/
import PacketForwarder.Proofs.Uplink.Report
import PacketForwarder.Radio.Sample

namespace PacketForwarder.Uplink

open Json Reader Cell

variable {p : ReceivePacket} {f : BinaryFormat}

/-! ## Signal strength -/

/-- a number rounded to a whole one, a half going to the even neighbour -/
def wholeOf (x : BinaryNumber f) : Int := if x.negative then -(Binary.units 0 x : Int) else Binary.units 0 x

/-- **The strengths that both encoders give as one integer**: no negative zero, and a signed word of 64 bits. -/
structure SameStrength (x : BinaryNumber f) : Prop where
  signless_zero : x.negative = true → wholeOf x ≠ 0
  at_least : -2 ^ 63 ≤ wholeOf x
  below : wholeOf x < 2 ^ 63

theorem roundedWhole_finite (x : BinaryNumber f) : roundedWhole (.finite x) =
    if -(2 ^ 63 : Int) ≤ wholeOf x ∧ wholeOf x < 2 ^ 63 then .int (wholeOf x) else .null := by
  have hround : roundHalfEven x.num x.den = Binary.units 0 x := by
    rw [roundHalfEven_eq x.den_pos, x.num_div_den, Binary.units, pow_zero, mul_one]
  have hpow : (twoPow 63 : Int) = 2 ^ 63 := rfl
  unfold roundedWhole wholeOf
  simp only [hround, hpow]

theorem value?_whole (x : BinaryNumber f) : (bare ((Binary.finite x).fixed rssiPlaces)).value? =
    (numberHead? x.negative (Nat.toDigits 10 (Binary.units 0 x)) none none).bind scalar? := by
  have hchars := Binary.fixed_chars rssiPlaces x
  have hone : Binary.units rssiPlaces x / tenPow rssiPlaces = Binary.units 0 x := Nat.div_one _
  have hnone : fractionOf rssiPlaces (Binary.units rssiPlaces x) = none := rfl
  rw [hone, hnone] at hchars
  exact (legible_number isFraction_none hchars).2

theorem integer?_wholeOf (x : BinaryNumber f) (hlo : -2 ^ 63 ≤ wholeOf x) (hhi : wholeOf x < 2 ^ 63) :
    integer? x.negative (Binary.units 0 x) = some (wholeOf x) ↔ (x.negative = true → wholeOf x ≠ 0) := by
  have h63 : twoPow 63 = 2 ^ 63 := rfl
  have h64 : twoPow 64 = 2 ^ 64 := rfl
  unfold integer? wholeOf at *
  cases hneg : x.negative with
  | true =>
    simp only [hneg, ↓reduceIte, h63] at *
    by_cases hzero : Binary.units 0 x = 0
    · simp [hzero]
    · have hword : ¬(Binary.units 0 x = 0 ∨ 2 ^ 63 < Binary.units 0 x) := by omega
      rw [if_neg hword]
      exact iff_of_true rfl fun _ => by omega
  | false =>
    simp only [hneg, Bool.false_eq_true, ↓reduceIte, h64] at *
    have hword : Binary.units 0 x < 2 ^ 64 := by omega
    rw [if_pos hword]
    exact iff_of_true rfl nofun

/-- **The text of a strength is read as its value** exactly if both encoders give one integer. -/
theorem strength_agrees (x : BinaryNumber f) :
    (bare ((Binary.finite x).fixed rssiPlaces)).value? = some (roundedWhole (.finite x)) ↔ SameStrength x := by
  rw [value?_whole, roundedWhole_finite]
  by_cases h : -(2 ^ 63 : Int) ≤ wholeOf x ∧ wholeOf x < 2 ^ 63
  · rw [if_pos h, whole_eq_int, integer?_wholeOf x h.1 h.2]
    exact ⟨fun hzero => ⟨hzero, h.1, h.2⟩, fun hsame => hsame.signless_zero⟩
  · rw [if_neg h]
    exact iff_of_false whole_ne_null fun hsame => h ⟨hsame.at_least, hsame.below⟩

/-! ## Frequency and signal to noise ratio -/

/-- a single is written like the same number as a double -/
theorem fixed_convert {x : BinaryNumber .single} {y : BinaryNumber .double} (hsign : y.negative = x.negative)
    (hvalue : y.magnitude = x.magnitude) (places : Nat) :
    (Binary.finite x).fixed places = (Binary.finite y).fixed places := by
  rw [Binary.fixed_finite, Binary.fixed_finite, hsign, Binary.units, Binary.units, hvalue]

theorem snr_agrees (x : BinaryNumber .single) : (bare ((Binary.finite x).fixed snrPlaces)).value? =
    some (rounded snrPlaces ((Binary.finite x).convert .double)) := by
  obtain ⟨y, hy, hsign, hvalue⟩ := Binary.convert_double x
  have hmax : y.magnitude ≤ 2 ^ 128 := by
    have hlt := x.magnitude_lt
    rw [hvalue]
    exact_mod_cast hlt.le
  obtain ⟨z, -, htext, hrounded⟩ := value?_fixed (by decide : 0 < snrPlaces) (by decide) hmax
  rw [hy, fixed_convert hsign hvalue, htext, hrounded]

theorem frequency_agrees (hz : UInt32) : (bare ((Frequency.toMegahertz hz).fixed frequencyPlaces)).value? =
    some (rounded frequencyPlaces (Frequency.toMegahertz hz)) := by
  obtain ⟨x, -, htext, hrounded⟩ := value?_frequency hz
  rw [htext, hrounded]

/-! ## Reports -/

/-- the members of a report as a value, in the order of its text -/
def members (p : ReceivePacket) : List (String × Json) :=
  [ ("tmst", .int p.counter.toNat),
    ("time", .str p.receivedAt.toSecondsText),
    ("chan", .int p.ifChain.toNat),
    ("rfch", .int p.rfChain.toNat),
    ("freq", rounded frequencyPlaces (Frequency.toMegahertz p.frequency)),
    ("stat", .int p.crc.code),
    ("modu", .str p.modulation.kind.wireName)] ++
  modulationMembers p.modulation ++
  [ ("rssi", roundedWhole p.rssi),
    ("size", .int p.payload.length),
    ("data", .str (Base64.encode p.payload))]

theorem encodeJson_eq (p : ReceivePacket) : encodeJson p = .ofMembers (members p) := rfl

theorem names_members (p : ReceivePacket) : names (members p) = reportKeys p.modulation.kind := by
  unfold members
  cases p.modulation <;> rfl

theorem modulation_agrees (hsnr : ∀ s, p.modulation = .lora s → ∃ y, s.snr = .finite y) :
    Readable ((modulationReport p.modulation).map fun f => (f.1, f.2.value?)) (modulationMembers p.modulation) := by
  unfold Readable
  cases hm : p.modulation with
  | lora s =>
    obtain ⟨y, hy⟩ := hsnr s hm
    simp only [modulationReport, modulationMembers, List.map_cons, List.map_nil, hy, snr_agrees,
      (legible_inQuotes (Datarate.text_plain _)).2, (legible_inQuotes (plain_fraction _)).2]
  | fsk s =>
    simp only [modulationReport, modulationMembers, List.map_cons, List.map_nil, value?_word]

/-- **The cells of a report are read as its members** exactly if the strength and the size are. -/
theorem readable_report {x : BinaryNumber .single} (hrssi : p.rssi = .finite x)
    (hsnr : ∀ s, p.modulation = .lora s → ∃ y, s.snr = .finite y) :
    Readable ((report p).map fun f => (f.1, f.2.value?)) (members p) ↔
      SameStrength x ∧ p.payload.length < 2 ^ 64 := by
  have hmodulation := modulation_agrees hsnr
  rw [← strength_agrees x, ← value?_nat, ← hrssi]
  unfold Readable report members at *
  rw [List.map_append, List.map_append, List.map_append, List.map_append, hmodulation]
  simp only [List.map_cons, List.map_nil, value?_word, value?_byte, frequency_agrees, (legible_code _).2,
    (legible_inQuotes (plain_toSecondsText _)).2, (legible_inQuotes (plain_wireName _)).2,
    (legible_inQuotes (Base64.encode_plain _)).2, List.append_cancel_left_eq, List.cons.injEq, Prod.mk.injEq, true_and,
    and_true]

/-- **The text is read as the value** exactly if the strength is one integer in both and the size is one. -/
theorem parse_encode_iff {x : BinaryNumber .single} (hrssi : p.rssi = .finite x)
    (hsnr : ∀ s, p.modulation = .lora s → ∃ y, s.snr = .finite y) :
    Json.parse (encode p).toUTF8.toList = .ok (encodeJson p) ↔ SameStrength x ∧ p.payload.length < 2 ^ 64 := by
  have hreads := encode_reads (p := p) ⟨⟨x, hrssi⟩, hsnr⟩
  rw [parse_reads hreads, ← readable_report hrssi hsnr, encodeJson_eq]
  apply Iff.intro
  · intro h
    obtain ⟨vs, hvs, heq⟩ := h
    have hnames : names vs = names (members p) := by
      rw [← hvs.names_eq, names_members, ← names_report, names, List.map_map]
      rfl
    have hnodup : (names (members p)).Nodup := names_members p ▸ nodup_reportKeys _
    rwa [← (ofMembers_inj hnames hnodup).1 heq.symm]
  · intro h
    exact ⟨members p, h, rfl⟩

def sampleAt (x : BinaryNumber .single) : ReceivePacket := { ReceivePacket.sample with rssi := .finite x }

/-- minus 35, which is one integer in both -/
def minus35 : BinaryNumber .single := ⟨true, 9175040, -18, by decide⟩

/-- minus a quarter, which is written as a negative zero -/
def minusQuarter : BinaryNumber .single := ⟨true, 8388608, -25, by decide⟩

theorem sampleAt_texts :
    Json.parse (encode (sampleAt minus35)).toUTF8.toList = .ok (encodeJson (sampleAt minus35)) ∧
    Json.parse (encode (sampleAt minusQuarter)).toUTF8.toList ≠ .ok (encodeJson (sampleAt minusQuarter)) := by
  have h35 : wholeOf minus35 = -35 := by
    have hmagnitude : minus35.magnitude * 10 ^ 0 = (35 : Nat) := by
      norm_num [BinaryNumber.magnitude, minus35]
    have hunits : Binary.units 0 minus35 = 35 := by rw [Binary.units, hmagnitude, halfEven_natCast]
    rw [wholeOf, hunits]
    rfl
  have hquarter : wholeOf minusQuarter = 0 := by
    have hmagnitude : minusQuarter.magnitude * 10 ^ 0 = 1 / 4 := by
      norm_num [BinaryNumber.magnitude, minusQuarter]
    have hunits : Binary.units 0 minusQuarter = 0 := by
      rw [Binary.units, hmagnitude]
      exact halfEven_near (by norm_num) (by norm_num)
    rw [wholeOf, hunits]
    rfl
  have hsame : SameStrength minus35 := ⟨fun _ => by omega, by omega, by omega⟩
  have hdiffers : ¬SameStrength minusQuarter := fun h => h.signless_zero rfl hquarter
  have hsnr : ∀ x s, (sampleAt x).modulation = .lora s → ∃ y, s.snr = .finite y := by
    intro x s hs
    obtain rfl := ReceiveModulation.lora.inj hs
    exact ⟨⟨false, 9961472, -20, by decide⟩, by decide⟩
  have hsize : (3 : Nat) < 2 ^ 64 := by norm_num
  refine ⟨(parse_encode_iff (p := sampleAt minus35) rfl (hsnr _)).2 ⟨hsame, hsize⟩, fun h => ?_⟩
  exact hdiffers ((parse_encode_iff (p := sampleAt minusQuarter) rfl (hsnr _)).1 h).1

end PacketForwarder.Uplink
