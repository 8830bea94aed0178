/-
A report is a request to send the packet again. `Uplink.encode` writes what was received, and `Downlink.decodeText`
takes that text as a request: the fields that both know agree (`tmst`, `rfch`, `freq`, `modu`, `datr`, `codr`, `data`),
the others are passed over or have their default. `loopback` is the packet that comes out, whatever went in
(`decodeText_encode`).

The text is read cell by cell (`Uplink.encode_reads`); so it holds a request (`holds_wire`), which passes all checks.
-/
import PacketForwarder.Proofs.Downlink.Checks
import PacketForwarder.Proofs.Downlink.Request
import PacketForwarder.Proofs.Uplink.Report
import PacketForwarder.Radio.Sample

namespace PacketForwarder

open Json Uplink

namespace RoundTrip

variable {p : ReceivePacket}

/-! ## What comes out -/

def loopbackModulation : ReceiveModulation → TransmitModulation
  | .lora s => .lora ⟨s.spreadingFactor, s.bandwidth, s.codingRate, false⟩
  | .fsk s => .fsk ⟨s.bitrate, 0⟩

/-- the packet to send as it was received, at the same counter and with defaults for the rest -/
def loopback (p : ReceivePacket) : TransmitPacket where
  immediate := false
  counter := p.counter
  gpsTime := none
  frequency := p.frequency
  power := 0
  rfChain := p.rfChain
  noCrc := false
  preambleLength := 0
  modulation := loopbackModulation p.modulation
  payload := p.payload

def request (p : ReceivePacket) : Request where
  imme := false
  tmst := some p.counter
  tmms := none
  ncrc := false
  freq := Frequency.toMegahertz p.frequency
  rfch := p.rfChain
  powe := 0
  modu := p.modulation.kind.wireName
  datr := match p.modulation with
    | .lora s => .text (Uplink.datarate s).text
    | .fsk s => .number (.ofInt .double s.bitrate.toNat)
  codr := match p.modulation with
    | .lora s => s.codingRate.fraction
    | .fsk _ => ""
  ipol := false
  prea := 0
  fdev := .zero .double
  data := Base64.encode p.payload

/-! ## The text holds the request -/

/-- what a reader makes of a report, where null stands for what it cannot read -/
def wire (p : ReceivePacket) : List (String × Json) := (report p).map fun f => (f.1, f.2.value?.getD .null)

theorem get?_wire (key : String) :
    (Json.obj (wire p)).get? key = ((report p).lookup key).map fun c => c.value?.getD .null := by
  unfold wire
  change List.lookup key _ = _
  induction report p with
  | nil => rfl
  | cons f fs ih =>
    rw [List.map_cons, lookup_cons_ite, lookup_cons_ite, ih]
    split_ifs <;> rfl

theorem get?_wire_none {key : String} (hkey : ∀ m ∈ Modulation.all, key ∉ reportKeys m) :
    (Json.obj (wire p)).get? key = none := by
  have hlookup : (report p).lookup key = none := by
    refine List.lookup_eq_none_iff.2 fun f hf => ?_
    have hmem : f.1 ∈ reportKeys p.modulation.kind := names_report p ▸ List.mem_map_of_mem hf
    have hall : p.modulation.kind ∈ Modulation.all := by
      cases p.modulation.kind <;> decide
    have hne : f.1 ≠ key := fun heq => hkey _ hall (heq ▸ hmem)
    simpa using Ne.symm hne
  rw [get?_wire, hlookup]
  rfl

theorem get?_wire_some {key : String} {c : Cell} {v : Json} (hlookup : (report p).lookup key = some c)
    (hvalue : c.value? = some v) : (Json.obj (wire p)).get? key = some v := by
  rw [get?_wire, hlookup, Option.map_some, hvalue]
  rfl

theorem frequency_wire (p : ReceivePacket) :
    ((Json.obj (wire p)).get? "freq").bind Json.toDouble? = some (Frequency.toMegahertz p.frequency) := by
  obtain ⟨x, hx, hvalue, -⟩ := Cell.value?_frequency p.frequency
  rw [get?_wire_some rfl hvalue, hx]
  rfl

theorem datarate_wire (p : ReceivePacket) :
    (request p).datr = .ofJson (((Json.obj (wire p)).get? "datr").getD .null) := by
  unfold request
  cases hm : p.modulation with
  | lora s =>
    have hlookup : (report p).lookup "datr" = some (.inQuotes (Uplink.datarate s).text) := by
      simp only [report, hm]
      rfl
    rw [get?_wire_some hlookup (Cell.legible_inQuotes (Datarate.text_plain _)).2]
    rfl
  | fsk s =>
    have hlookup : (report p).lookup "datr" = some (.nat s.bitrate.toNat) := by
      simp only [report, hm]
      rfl
    rw [get?_wire_some hlookup (Cell.value?_word _)]
    rfl

theorem codingRate_wire (p : ReceivePacket) : Request.LeftOutOr ((Json.obj (wire p)).get? "codr")
    ((request p).codr = "") (.str (request p).codr) := by
  unfold request
  cases hm : p.modulation with
  | lora s =>
    have hlookup : (report p).lookup "codr" = some (.inQuotes s.codingRate.fraction) := by
      simp only [report, hm]
      rfl
    exact Or.inr (get?_wire_some hlookup (Cell.legible_inQuotes (plain_fraction _)).2)
  | fsk s =>
    have hlookup : (report p).lookup "codr" = none := by
      simp only [report, hm]
      rfl
    refine Or.inl ⟨?_, rfl⟩
    rw [get?_wire, hlookup]
    rfl

/-- **The text of a report holds the request to send it again.** -/
theorem holds_wire (p : ReceivePacket) : Request.Holds (.obj (wire p)) (request p) where
  imme := Or.inl ⟨get?_wire_none (by decide), rfl⟩
  tmst := Or.inr ⟨_, rfl, get?_wire_some rfl (Cell.value?_word _)⟩
  tmms := Or.inl ⟨rfl, Or.inl (get?_wire_none (by decide))⟩
  ncrc := Or.inl ⟨get?_wire_none (by decide), rfl⟩
  freq := frequency_wire p
  rfch := get?_wire_some rfl (Cell.value?_byte _)
  powe := Or.inl ⟨get?_wire_none (by decide), rfl⟩
  modu := get?_wire_some rfl (Cell.legible_inQuotes (plain_wireName _)).2
  datr := datarate_wire p
  codr := codingRate_wire p
  ipol := Or.inl ⟨get?_wire_none (by decide), rfl⟩
  prea := Or.inl ⟨get?_wire_none (by decide), rfl⟩
  fdev := Or.inl ⟨get?_wire_none (by decide), rfl⟩
  data := by
    have hlookup : (report p).lookup "data" = some (.inQuotes (Base64.encode p.payload)) := by
      unfold report
      cases p.modulation <;> rfl
    exact get?_wire_some hlookup (Cell.legible_inQuotes (Base64.encode_plain _)).2

theorem nodup_wire (p : ReceivePacket) : (names (wire p)).Nodup := by
  have hnames : names (wire p) = reportKeys p.modulation.kind := by
    rw [← names_report, wire, names, List.map_map]
    rfl
  rw [hnames]
  cases p.modulation.kind <;> decide

theorem isSome_inQuotes {t : String} (ht : PlainText t) : (Cell.inQuotes t).value?.isSome := by
  rw [(Cell.legible_inQuotes ht).2]
  rfl

theorem modulation_cells (m : ReceiveModulation) :
    ∀ f ∈ modulationReport m, Request.schema.known f.1 = true → f.2.value?.isSome := by
  cases m with
  | lora s =>
    -- the signal to noise ratio is no field of a request
    have hsnr : Request.schema.known "lsnr" ≠ true := by decide
    simp only [modulationReport, List.forall_mem_cons]
    exact ⟨fun _ => isSome_inQuotes (Datarate.text_plain _), fun _ => isSome_inQuotes (plain_fraction _),
      fun hknown => absurd hknown hsnr, List.forall_mem_nil _⟩
  | fsk s =>
    simp only [modulationReport, List.forall_mem_cons, Cell.value?_word]
    exact ⟨fun _ => rfl, List.forall_mem_nil _⟩

/-- the cells of a report that a request knows can be read -/
theorem known_cells (p : ReceivePacket) :
    ∀ f ∈ report p, Request.schema.known f.1 = true → f.2.value?.isSome := by
  have hunknown : ∀ key ∈ ["time", "chan", "stat", "rssi", "size"], Request.schema.known key ≠ true := by decide
  simp only [List.forall_mem_cons] at hunknown
  obtain ⟨htime, hchan, hstat, hrssi, hsize, -⟩ := hunknown
  obtain ⟨x, -, hfrequency, -⟩ := Cell.value?_frequency p.frequency
  simp only [report, List.forall_mem_append, List.forall_mem_cons, Cell.value?_word, Cell.value?_byte,
    hfrequency]
  refine ⟨⟨⟨fun _ => rfl, fun h => absurd h htime, fun _ => rfl, fun _ => rfl, fun _ => rfl,
    fun h => absurd h hstat, fun _ => isSome_inQuotes (plain_wireName _), List.forall_mem_nil _⟩,
    modulation_cells p.modulation⟩, ?_⟩
  exact ⟨fun h => absurd h hrssi, fun h => absurd h hsize, fun _ => isSome_inQuotes (Base64.encode_plain _),
    List.forall_mem_nil _⟩

/-- **The text of a report is taken as a request.** -/
theorem ofText_encode (h : Measured p) : Request.ofText (encode p).toUTF8.toList = .ok (request p) := by
  have hknown : ∀ m ∈ (report p).map fun f => (f.1, f.2.value?), Request.schema.known m.1 = true → m.2.isSome := by
    intro m hm
    obtain ⟨f, hf, rfl⟩ := List.mem_map.1 hm
    exact known_cells p f hf
  have hwire : ((report p).map fun f => (f.1, f.2.value?)).map (fun m => (m.1, m.2.getD .null)) = wire p := by
    rw [List.map_map]
    rfl
  have hobject := (Request.ofJson_object (nodup_wire p)).2 (holds_wire p)
  obtain ⟨rec, hrec, hrequest⟩ := Outcome.map_eq_ok.1 hobject
  refine Outcome.map_eq_ok.2 ⟨rec, ?_, hrequest⟩
  rw [Schema.ofText_reads Request.unchosen (encode_reads h) hknown, hwire]
  exact hrec

/-! ## The request passes its checks -/

theorem deviation_zero : Deviation.ofHertz (.zero .double) = 0 := by decide +kernel

theorem modulation_request (p : ReceivePacket) : (request p).modulation = .ok (loopbackModulation p.modulation) := by
  refine Request.modulation_eq_ok.2 ?_
  cases hm : p.modulation with
  | lora s =>
    refine Or.inl ⟨_, rfl, ?_, Request.lora_eq_ok.2 ⟨⟨(Uplink.datarate s).text, ?_, ?_⟩, ?_, rfl⟩⟩
    · simp only [request, hm]
      rfl
    · simp only [request, hm]
    · exact Datarate.spells_text (Uplink.datarate s)
    · simp only [request, hm]
      exact CodingRate.fraction_mem_spellings _
  | fsk s =>
    obtain ⟨x, hx, hs, hmag⟩ := Binary.ofInt_natural (s.bitrate.toNat_lt.trans (by norm_num))
    have hclamp : (Binary.finite x).clamp Request.maxBitrate = s.bitrate.toNat :=
      Binary.clamp_whole hs hmag (Nat.le_of_lt_succ s.bitrate.toNat_lt)
    refine Or.inr ⟨_, rfl, ?_, Request.fsk_eq_ok.2 ⟨.finite x, ?_, ?_, ?_⟩⟩
    · simp only [request, hm]
      rfl
    · simp only [request, hm, hx]
    · rw [hclamp]
      exact (UInt32.ofNat_toNat).symm
    · exact deviation_zero.symm

/-- **What was received and is taken as a request is sent as it was received.** Only the strength and the signal to
noise ratio have to be numbers. -/
theorem decodeText_encode {x : BinaryNumber .single} (hrssi : p.rssi = .finite x)
    (hsnr : ∀ s, p.modulation = .lora s → ∃ y, s.snr = .finite y) :
    Downlink.decodeText (encode p).toUTF8.toList = .ok (loopback p) := by
  have hdecode : (request p).decode .precedence = .ok (loopback p) := by
    refine Request.decode_eq_ok_iff.2 ⟨nofun, _, p.payload, modulation_request p, rfl, ?_⟩
    have hfrequency : Frequency.ofMegahertz (Frequency.toMegahertz p.frequency) = p.frequency := by
      rw [Frequency.toMegahertz_eq, Frequency.ofMegahertz_quotient p.frequency.toNat_lt]
      exact UInt32.ofNat_toNat
    simp only [loopback, Request.packet, request, hfrequency]
    rfl
  unfold Downlink.decodeText
  rw [ofText_encode ⟨⟨x, hrssi⟩, hsnr⟩]
  exact hdecode

/-- the sample packet, sent back -/
theorem decodeText_sample : Downlink.decodeText (encode .sample).toUTF8.toList = .ok (loopback .sample) := by
  have hrssi : ReceivePacket.sample.rssi = .finite ⟨true, 14942208, -18, by decide⟩ := by decide
  refine decodeText_encode hrssi fun s hs => ?_
  obtain rfl := ReceiveModulation.lora.inj hs
  exact ⟨⟨false, 9961472, -20, by decide⟩, by decide⟩

end RoundTrip

end PacketForwarder
