/-
The text of a packet that is shown. `shownLines` gives its lines: the ten fields with their values, a line each, but for
a GPS time, for the settings of the modulation and for the bytes of a payload, which stand deeper.

Results:
- `block_describe`: a packet is shown by these lines.
- `shownText_inj`: packets that are shown alike are one. The lines are found again in the text, since none of them has a
  line break in it, and each value is found in its line.
-/
import Mathlib
import PacketForwarder.Proofs.Number.Decimal
import PacketForwarder.Proofs.Text.Bytes
import PacketForwarder.Proofs.Text.Description
import PacketForwarder.Radio.Sample

namespace PacketForwarder

open Description (deeper fieldLine)

/-! ## Words -/

/-- whole kilohertz, and the tenths of one after a `k` -/
def Bandwidth.shown (b : Bandwidth) : String :=
  "Bw" ++ toString (b.hertz / 1000) ++ "k" ++ if b.hertz % 1000 = 0 then "" else toString (b.hertz % 1000 / 100)

def CodingRate.shown : CodingRate → String
  | .fourFifths => "Cr4_5"
  | .fourSixths => "Cr4_6"
  | .fourSevenths => "Cr4_7"
  | .fourEighths => "Cr4_8"

theorem Bandwidth.name_eq_shown (b : Bandwidth) : b.name = b.shown := by
  cases b <;> rfl

theorem CodingRate.name_eq_shown (c : CodingRate) : c.name = c.shown := by
  cases c <;> rfl

theorem toString_bool_inj {a b : Bool} (h : toString a = toString b) : a = b := by
  cases a <;> cases b <;> first | rfl | exact absurd h (by decide)

theorem Bandwidth.shown_inj {b b' : Bandwidth} (h : b.shown = b'.shown) : b = b' := by
  have hfind : ∀ c : Bandwidth, Bandwidth.all.find? (fun d => d.shown = c.shown) = some c := by
    intro c
    cases c <;> decide
  exact Option.some.inj ((hfind b).symm.trans (h ▸ hfind b'))

theorem CodingRate.shown_inj {c c' : CodingRate} (h : c.shown = c'.shown) : c = c' := by
  cases c <;> cases c' <;> first | rfl | exact absurd h (by decide)

theorem plain_toString (n : Nat) : PlainText (toString n) := by
  rw [Nat.toString_eq_ofList_toDigits]
  exact plainText_digits fun _ hc => isDigit_of_mem_toDigits hc

theorem plain_bool (b : Bool) : PlainText (toString b) := by
  cases b <;> decide

theorem plain_bandwidth (b : Bandwidth) : PlainText b.shown := by
  cases b <;> decide

theorem plain_codingRate (c : CodingRate) : PlainText c.shown := by
  cases c <;> decide

/-! ## Lines -/

section

variable {name value value' l l' : String}

theorem deeper_inj : deeper l = deeper l' ↔ l = l' := String.append_right_inj _

theorem fieldLine_inj : fieldLine name value = fieldLine name value' ↔ value = value' := by
  rw [fieldLine, fieldLine, String.append_left_inj, String.append_right_inj]

theorem plain_deeper (h : PlainText l) : PlainText (deeper l) := PlainText.append (by decide) h

theorem plain_fieldLine (hname : PlainText name) (h : PlainText value) : PlainText (fieldLine name value) :=
  ((hname.append (by decide)).append h).append (by decide)

end

namespace TransmitPacket

def gpsTimeLines : Option UInt64 → List String
  | none => ["gps_time_ms: None,"]
  | some t => ["gps_time_ms: Some(", deeper (toString t.toNat ++ ","), "),"]

def modulationLines : TransmitModulation → List String
  | .lora s =>
    ["modulation: LoRa(", deeper "LoRaTx \x7b",
      deeper (deeper (fieldLine "spreading_factor" (toString s.spreadingFactor.toNat))),
      deeper (deeper (fieldLine "bandwidth" s.bandwidth.shown)),
      deeper (deeper (fieldLine "coding_rate" s.codingRate.shown)),
      deeper (deeper (fieldLine "invert_polarity" (toString s.invertPolarity))),
      deeper "\x7d,", "),"]
  | .fsk s =>
    ["modulation: Fsk(", deeper "FskTx \x7b",
      deeper (deeper (fieldLine "bitrate_bps" (toString s.bitrate.toNat))),
      deeper (deeper (fieldLine "freq_deviation_khz" (toString s.deviationKhz.toNat))),
      deeper "\x7d,", "),"]

def byteLine (b : UInt8) : String := deeper (toString b.toNat ++ ",")

def payloadLines : List UInt8 → List String
  | [] => ["payload: [],"]
  | b :: bs => "payload: [" :: ((b :: bs).map byteLine ++ ["],"])

def fieldLines (p : TransmitPacket) : List String :=
  fieldLine "immediate" (toString p.immediate) :: fieldLine "count_us" (toString p.counter.toNat) ::
    (gpsTimeLines p.gpsTime ++ fieldLine "freq_hz" (toString p.frequency.toNat) ::
      fieldLine "power_dbm" (toString p.power.toNat) :: fieldLine "rf_chain" (toString p.rfChain.toNat) ::
      fieldLine "no_crc" (toString p.noCrc) :: fieldLine "preamble_length" (toString p.preambleLength.toNat) ::
      (modulationLines p.modulation ++ payloadLines p.payload))

def shownLines (p : TransmitPacket) : List String :=
  "TransmitPacket \x7b" :: (p.fieldLines.map deeper ++ ["\x7d"])

/-- **What is shown of a packet** -/
def shownText (p : TransmitPacket) : String := "\n".intercalate p.shownLines

/-! ## Showing a packet -/

theorem lines_gpsTime (gpsTime : Option UInt64) (rest : List (String × Description)) :
    Description.fieldLines (("gps_time_ms", .option (gpsTime.map fun t => .nat t.toNat)) :: rest) =
      gpsTimeLines gpsTime ++ Description.fieldLines rest := by
  cases gpsTime <;> rfl

theorem lines_modulation (modulation : TransmitModulation) (rest : List (String × Description)) :
    Description.fieldLines (("modulation", modulation.describe) :: rest) =
      modulationLines modulation ++ Description.fieldLines rest := by
  cases modulation with
  | lora s =>
    rw [modulationLines, ← Bandwidth.name_eq_shown, ← CodingRate.name_eq_shown]
    rfl
  | fsk s => rfl

theorem itemLines_bytes (bs : List UInt8) :
    Description.itemLines (bs.map fun b => .nat b.toNat) = bs.map fun b => toString b.toNat ++ "," := by
  have hwords := Description.itemLines_words (bs.map fun b => toString b.toNat)
  rwa [List.map_map, List.map_map] at hwords

theorem lines_payload (payload : List UInt8) (rest : List (String × Description)) :
    Description.fieldLines (("payload", .bytes payload) :: rest) =
      payloadLines payload ++ Description.fieldLines rest := by
  cases payload with
  | nil => rfl
  | cons b bs =>
    have hbytes := itemLines_bytes (b :: bs)
    refine congrArg (· ++ _) ?_
    calc Description.withComma (Description.named "payload" (Description.bytes (b :: bs)).lines)
        = Description.withComma (("payload: [" ::
            (Description.itemLines ((b :: bs).map fun b => .nat b.toNat)).map deeper) ++ ["]"]) := rfl
      _ = payloadLines (b :: bs) := by
        rw [Description.withComma_concat, hbytes, List.map_map]
        rfl

theorem lines_describe (p : TransmitPacket) : p.describe.lines = p.shownLines := by
  simp only [describe, Description.lines, Description.fieldLines_bool, Description.fieldLines_nat, lines_gpsTime,
    lines_modulation, lines_payload]
  rw [Description.fieldLines, List.append_nil]
  rfl

/-- **A packet is shown by its lines.** -/
theorem block_describe (p : TransmitPacket) : p.describe.block 0 = p.shownText := by
  rw [Description.block_eq, lines_describe]
  rfl

example : { sample with payload := [170] }.shownLines =
    ["TransmitPacket \x7b",
      "    immediate: false,",
      "    count_us: 1000000,",
      "    gps_time_ms: None,",
      "    freq_hz: 869525000,",
      "    power_dbm: 14,",
      "    rf_chain: 0,",
      "    no_crc: true,",
      "    preamble_length: 8,",
      "    modulation: LoRa(",
      "        LoRaTx \x7b",
      "            spreading_factor: 9,",
      "            bandwidth: Bw125k,",
      "            coding_rate: Cr4_5,",
      "            invert_polarity: true,",
      "        \x7d,",
      "    ),",
      "    payload: [",
      "        170,",
      "    ],",
      "\x7d"] := by
  decide

/-! ## One packet for each text -/

theorem plain_gpsTime (gpsTime : Option UInt64) : ∀ l ∈ gpsTimeLines gpsTime, PlainText l := by
  cases gpsTime with
  | none => decide
  | some t =>
    simp only [gpsTimeLines, List.forall_mem_cons]
    exact ⟨by decide, plain_deeper ((plain_toString t.toNat).append (by decide)), by decide, List.forall_mem_nil _⟩

theorem plain_modulation (modulation : TransmitModulation) : ∀ l ∈ modulationLines modulation, PlainText l := by
  cases modulation with
  | lora s =>
    simp only [modulationLines, List.forall_mem_cons]
    refine ⟨by decide, by decide, plain_deeper (plain_deeper ?_), plain_deeper (plain_deeper ?_),
      plain_deeper (plain_deeper ?_), plain_deeper (plain_deeper ?_), by decide, by decide, List.forall_mem_nil _⟩
    · exact plain_fieldLine (by decide) (plain_toString _)
    · exact plain_fieldLine (by decide) (plain_bandwidth _)
    · exact plain_fieldLine (by decide) (plain_codingRate _)
    · exact plain_fieldLine (by decide) (plain_bool _)
  | fsk s =>
    simp only [modulationLines, List.forall_mem_cons]
    refine ⟨by decide, by decide, plain_deeper (plain_deeper ?_), plain_deeper (plain_deeper ?_), by decide, by decide,
      List.forall_mem_nil _⟩
    · exact plain_fieldLine (by decide) (plain_toString _)
    · exact plain_fieldLine (by decide) (plain_toString _)

theorem plain_payload (payload : List UInt8) : ∀ l ∈ payloadLines payload, PlainText l := by
  cases payload with
  | nil => decide
  | cons b bs =>
    rw [payloadLines, List.forall_mem_cons, List.forall_mem_append, List.forall_mem_map]
    exact ⟨by decide, fun c _ => plain_deeper ((plain_toString c.toNat).append (by decide)), by decide⟩

/-- **No line has a break in it.** -/
theorem plain_shownLines (p : TransmitPacket) : ∀ l ∈ p.shownLines, PlainText l := by
  have hfields : ∀ l ∈ p.fieldLines, PlainText l := by
    simp only [fieldLines, List.forall_mem_cons, List.forall_mem_append]
    refine ⟨plain_fieldLine (by decide) (plain_bool _), plain_fieldLine (by decide) (plain_toString _), plain_gpsTime _,
      plain_fieldLine (by decide) (plain_toString _), plain_fieldLine (by decide) (plain_toString _),
      plain_fieldLine (by decide) (plain_toString _), plain_fieldLine (by decide) (plain_bool _),
      plain_fieldLine (by decide) (plain_toString _), plain_modulation _, plain_payload _⟩
  simp only [shownLines, List.forall_mem_cons, List.forall_mem_append, List.forall_mem_map]
  exact ⟨by decide, fun l hl => plain_deeper (hfields l hl), by decide, List.forall_mem_nil _⟩

/-- the lines are found again in the text -/
theorem splitOn_shownText (p : TransmitPacket) : p.shownText.toList.splitOn '\n' = p.shownLines.map String.toList := by
  have hbreak : ∀ cs ∈ p.shownLines.map String.toList, '\n' ∉ cs := by
    rw [List.forall_mem_map]
    intro l hl hmem
    exact absurd (plain_shownLines p l hl _ hmem) (by decide)
  rw [shownText, String.toList_intercalate]
  exact List.splitOn_intercalate '\n' hbreak (by simp [shownLines])

theorem gpsTimeLines_inj {t t' : Option UInt64} {rest rest' : List String}
    (h : gpsTimeLines t ++ rest = gpsTimeLines t' ++ rest') : t = t' ∧ rest = rest' := by
  cases t <;> cases t' <;> simp only [gpsTimeLines, List.cons_append, List.nil_append, List.cons.injEq, deeper_inj,
    String.append_left_inj] at h
  case none.none => exact ⟨rfl, h.2⟩
  case some.some t t' => exact ⟨congrArg some (UInt64.toNat_inj.1 (Nat.repr_inj.1 h.2.1)), h.2.2.2⟩
  all_goals exact absurd h.1 (by decide)

theorem modulationLines_inj {m m' : TransmitModulation} {rest rest' : List String}
    (h : modulationLines m ++ rest = modulationLines m' ++ rest') : m = m' ∧ rest = rest' := by
  cases m <;> cases m' <;> simp only [modulationLines, List.cons_append, List.nil_append, List.cons.injEq, deeper_inj,
    fieldLine_inj] at h
  case lora.lora s s' =>
    obtain ⟨-, -, hfactor, hbandwidth, hrate, hpolarity, -, -, hrest⟩ := h
    obtain ⟨factor, bandwidth, rate, polarity⟩ := s
    obtain rfl := UInt32.toNat_inj.1 (Nat.repr_inj.1 hfactor)
    obtain rfl := Bandwidth.shown_inj hbandwidth
    obtain rfl := CodingRate.shown_inj hrate
    obtain rfl := toString_bool_inj hpolarity
    exact ⟨rfl, hrest⟩
  case fsk.fsk s s' =>
    obtain ⟨-, -, hbitrate, hdeviation, -, -, hrest⟩ := h
    obtain ⟨bitrate, deviation⟩ := s
    obtain rfl := UInt32.toNat_inj.1 (Nat.repr_inj.1 hbitrate)
    obtain rfl := UInt8.toNat_inj.1 (Nat.repr_inj.1 hdeviation)
    exact ⟨rfl, hrest⟩
  all_goals exact absurd h.1 (by decide)

theorem payloadLines_inj {bs bs' : List UInt8} (h : payloadLines bs = payloadLines bs') : bs = bs' := by
  have hbyte : Function.Injective byteLine := fun b b' hb =>
    UInt8.toNat_inj.1 (Nat.repr_inj.1 ((String.append_left_inj _).1 (deeper_inj.1 hb)))
  cases bs <;> cases bs' <;> simp only [payloadLines, List.cons.injEq] at h
  case nil.nil => rfl
  case cons.cons => exact List.map_injective_iff.2 hbyte (List.append_cancel_right h.2)
  all_goals exact absurd h.1 (by decide)

theorem shownLines_inj {p q : TransmitPacket} (h : p.shownLines = q.shownLines) : p = q := by
  have hfields : p.fieldLines = q.fieldLines :=
    List.map_injective_iff.2 (fun _ _ => deeper_inj.1) (List.append_cancel_right (List.cons.inj h).2)
  obtain ⟨immediate, counter, gpsTime, frequency, power, rfChain, noCrc, preambleLength, modulation, payload⟩ := p
  simp only [fieldLines, List.cons.injEq, fieldLine_inj] at hfields
  obtain ⟨himmediate, hcounter, htimes⟩ := hfields
  obtain ⟨rfl, hnumbers⟩ := gpsTimeLines_inj htimes
  simp only [List.cons.injEq, fieldLine_inj] at hnumbers
  obtain ⟨hfrequency, hpower, hrfChain, hnoCrc, hpreamble, hsettings⟩ := hnumbers
  obtain ⟨rfl, hbytes⟩ := modulationLines_inj hsettings
  obtain rfl := payloadLines_inj hbytes
  obtain rfl := toString_bool_inj himmediate
  obtain rfl := UInt32.toNat_inj.1 (Nat.repr_inj.1 hcounter)
  obtain rfl := UInt32.toNat_inj.1 (Nat.repr_inj.1 hfrequency)
  obtain rfl := UInt8.toNat_inj.1 (Nat.repr_inj.1 hpower)
  obtain rfl := UInt8.toNat_inj.1 (Nat.repr_inj.1 hrfChain)
  obtain rfl := toString_bool_inj hnoCrc
  obtain rfl := UInt16.toNat_inj.1 (Nat.repr_inj.1 hpreamble)
  rfl

/-- **Packets that are shown alike are one.** -/
theorem shownText_inj {p q : TransmitPacket} (h : p.shownText = q.shownText) : p = q := by
  have hlines : p.shownLines.map String.toList = q.shownLines.map String.toList := by
    rw [← splitOn_shownText, ← splitOn_shownText, h]
  exact shownLines_inj (List.map_injective_iff.2 (fun _ _ => String.toList_inj.1) hlines)

end TransmitPacket

end PacketForwarder
