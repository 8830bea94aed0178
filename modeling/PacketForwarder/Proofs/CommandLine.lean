/-
The two commands, one after the other. `encode` makes a report of a packet from options, and `decode` shows the packet
that a request asks for; a report is a request too. So what `encode` writes can be given to `decode`, as it is or as the
member `txpk` of an object (`Presents`), and under both policies: the counter is the one scheduling field of a report.

Results:
- `operations_compose`: `encode` succeeds exactly if its options mean something (`Meaningful`). If the measurements are
  numbers and a word counts the payload, whatever presents the report is shown by `decode` as one and the same packet,
  with the counter, the frequency, the chain, the modulation and the payload of the options (`Echoes`). What is printed
  is the text of this packet and of no other one (`shownText`).
- `aliasedOptions_shown`: options with a bandwidth that has a fraction, a coding rate by one of its other spellings and
  a payload outside of ASCII are shown so.

The way there: every cell of a report is read (`isSome_cells`), so its text is an object wherever it stands
(`gives_encode`), alone (`parse_encode`) or inside of another (`presents_wrapped`). This object holds the request of
`RoundTrip`, which passes its checks under both policies (`decode_wire`).
-/
import PacketForwarder.CommandLine.Run
import PacketForwarder.Proofs.Downlink.Scheduling
import PacketForwarder.Proofs.HertzRoundTrip
import PacketForwarder.Proofs.RoundTrip
import PacketForwarder.Proofs.ShownPacket
import PacketForwarder.Proofs.Uplink.TwoEncoders

namespace PacketForwarder

open Json Reader Uplink RoundTrip

/-! ## Tables -/

theorem CrcStatus.ofCode?_eq_some {n : Int} {c : CrcStatus} : ofCode? n = some c ↔ n = c.code := by
  apply Iff.intro
  · exact fun h => key_of_find? h
  · rintro rfl
    cases c <;> rfl

theorem CrcStatus.isSome_ofCode? {n : Int} : (ofCode? n).isSome ↔ n = -1 ∨ n = 0 ∨ n = 1 := by
  rw [Option.isSome_iff_exists]
  simp only [ofCode?_eq_some]
  apply Iff.intro
  · rintro ⟨c, rfl⟩
    cases c <;> decide
  · rintro (rfl | rfl | rfl)
    exacts [⟨.fail, rfl⟩, ⟨.absent, rfl⟩, ⟨.ok, rfl⟩]

def Bandwidth.wholeKhzKeys : List Nat := [7, 10, 15, 20, 31, 41, 62, 125, 250, 500]

theorem Bandwidth.isSome_ofWholeKhz? {n : Nat} : (ofWholeKhz? n).isSome ↔ n ∈ wholeKhzKeys := by
  have hkeys : wholeKhzKeys = all.map wholeKhz := by decide
  have hall : ∀ b, b ∈ all := by
    intro b
    cases b <;> decide
  rw [Option.isSome_iff_exists, hkeys, List.mem_map]
  refine exists_congr fun b => ?_
  rw [ofWholeKhz?_eq_some, and_iff_right (hall b), eq_comm]

def CodingRate.aliases : List String := ["4/5", "4/6", "2/3", "4/7", "4/8", "2/4", "1/2"]

theorem CodingRate.isSome_ofSpelling? {s : String} : (ofSpelling? s).isSome ↔ s ∈ aliases := by
  have haliases : aliases = all.flatMap spellings := by decide
  have hall : ∀ c, c ∈ all := by
    intro c
    cases c <;> decide
  rw [Option.isSome_iff_exists, haliases, List.mem_flatMap]
  refine exists_congr fun c => ?_
  rw [ofSpelling?_eq_some, and_iff_right (hall c)]

/-! ## The report as an object -/

namespace Uplink

open Cell

variable {p : ReceivePacket} {rest : Bytes} {fuel depth : Nat}

theorem isSome_strength (x : BinaryNumber .single) : (bare ((Binary.finite x).fixed rssiPlaces)).value?.isSome := by
  have hmax : x.magnitude ≤ 2 ^ 128 := by
    exact_mod_cast x.magnitude_lt.le
  obtain ⟨hround, y, hy⟩ := Binary.toBinary_units (Nat.zero_le 6) x hmax
  rw [value?_whole, numberHead?_whole]
  cases integer? x.negative (Binary.units 0 x) with
  | some i => rfl
  | none =>
    -- a strength beyond the words of 64 bits, or a negative zero: it is read as a float, and the format has room for it
    have hfloat : Decimal.toBinary .double ⟨x.negative, Binary.units 0 x, 0⟩ = .finite y := hround.trans hy
    rw [Option.elim_none, hfloat]
    rfl

theorem isSome_modulation (h : Measured p) : ∀ f ∈ modulationReport p.modulation, f.2.value?.isSome := by
  cases hm : p.modulation with
  | lora s =>
    obtain ⟨x, hx⟩ := h.snr s hm
    simp only [modulationReport, List.forall_mem_cons, hx, snr_agrees]
    exact ⟨isSome_inQuotes (Datarate.text_plain _), isSome_inQuotes (plain_fraction _), rfl, List.forall_mem_nil _⟩
  | fsk s =>
    simp only [modulationReport, List.forall_mem_cons, value?_word]
    exact ⟨rfl, List.forall_mem_nil _⟩

/-- **Every cell of a report is read**, if the measurements are numbers and a word counts the payload. -/
theorem isSome_cells (h : Measured p) (hsize : p.payload.length < 2 ^ 64) : ∀ f ∈ report p, f.2.value?.isSome := by
  obtain ⟨x, hx⟩ := h.rssi
  simp only [report, List.forall_mem_append, List.forall_mem_cons, value?_word, value?_byte, frequency_agrees,
    (legible_code _).2, value?_nat.2 hsize, hx]
  exact ⟨⟨⟨rfl, isSome_inQuotes (plain_toSecondsText _), rfl, rfl, rfl, rfl, isSome_inQuotes (plain_wireName _),
    List.forall_mem_nil _⟩, isSome_modulation h⟩, isSome_strength x, rfl, isSome_inQuotes (Base64.encode_plain _),
    List.forall_mem_nil _⟩

/-- **The text of a report is read as an object wherever it stands.** -/
theorem gives_encode (h : Measured p) (hsize : p.payload.length < 2 ^ 64) (hfuel : (report p).length ≤ fuel) :
    Gives (value fuel (depth + 1)) (bytesOf (encode p) ++ rest) (.ofMembers (wire p)) rest := by
  have hne : report p ≠ [] := List.cons_ne_nil _ _
  have hcells : ∀ f ∈ report p, ∀ tail, Delimited tail →
      Gives (value fuel depth) (bytesOf f.2.text ++ tail) (f.2.value?.getD .null) tail := by
    intro f hf tail htail
    obtain ⟨v, hv⟩ := Option.isSome_iff_exists.1 (isSome_cells h hsize f hf)
    refine (legible_report h f hf tail htail).gives.2 ⟨?_, rfl⟩
    rw [hv]
    rfl
  rw [encode, bytesOf_write hne, wire]
  exact gives_written (fun c : Cell => bytesOf c.text) (fun c : Cell => c.value?.getD .null) hne
    (fun _ => plain_keys) hcells hfuel

theorem length_report_le (h : Measured p) : (report p).length ≤ (bytesOf (encode p)).length := by
  have hlength := (encode_reads h).length_le
  rwa [List.length_map] at hlength

theorem parse_encode (h : Measured p) (hsize : p.payload.length < 2 ^ 64) :
    Json.parse (bytesOf (encode p)) = .ok (.ofMembers (wire p)) := by
  have hgives : Gives (value (bytesOf (encode p)).length nestingLimit) (bytesOf (encode p) ++ [])
      (.ofMembers (wire p)) [] := gives_encode h hsize (length_report_le h)
  rw [List.append_nil] at hgives
  exact parse_eq_ok.2 ⟨[], hgives, rfl⟩

end Uplink

/-! ## The request in the report -/

namespace RoundTrip

/-- **The object of a report is taken as the request to send it again.** -/
theorem ofJson_wire (p : ReceivePacket) : Request.ofJson (.ofMembers (wire p)) = .ok (request p) := by
  have hdistinct : Request.schema.Distinct (wire p) :=
    Request.singleNames.distinct_iff.2 fun k => List.nodup_iff_count_le_one.1 (nodup_wire p) _
  obtain ⟨rec, hrec, hrequest⟩ := Outcome.map_eq_ok.1 ((Request.ofJson_object (nodup_wire p)).2 (holds_wire p))
  exact Outcome.map_eq_ok.2 ⟨rec, (Schema.ofJson_ofMembers hdistinct).2 hrec, hrequest⟩

/-- the counter is the one scheduling field of a report, so both policies accept it -/
theorem decode_request (policy : SchedulePolicy) (p : ReceivePacket) :
    (request p).decode policy = .ok (loopback p) := by
  have hcounter : ∃! f, (request p).isSet f = true := by
    refine ⟨.tmst, rfl, fun f hf => ?_⟩
    cases f with
    | tmst => rfl
    | imme | tmms => cases hf
  refine Request.decode_eq_ok_iff.2 ⟨fun _ => hcounter, _, p.payload, modulation_request p, rfl, ?_⟩
  simp only [loopback, Request.packet, request, Frequency.ofMegahertz_toMegahertz]
  rfl

theorem decode_wire (policy : SchedulePolicy) (p : ReceivePacket) :
    Downlink.decode policy (.ofMembers (wire p)) = .ok (loopback p) :=
  (Downlink.decode_of_ofJson (ofJson_wire p)).trans (decode_request policy p)

/-- a report is no object with a request inside -/
theorem get?_txpk (p : ReceivePacket) : (Json.ofMembers (wire p)).get? "txpk" = none := by
  have hnone : (wire p).lookup "txpk" = none :=
    get?_wire_none (by decide : ∀ m ∈ Modulation.all, "txpk" ∉ reportKeys m)
  have hmissing : "txpk" ∉ names (wire p) := lookup_eq_none.1 hnone
  rw [get?_ofMembers, lookup_eq_none, names, List.map_reverse, List.mem_reverse]
  exact hmissing

end RoundTrip

namespace CommandLine

/-! ## Encoding options -/

namespace EncodeOptions

variable {o : EncodeOptions} {now : Instant} {p : ReceivePacket} {r : String}

/-- **The options that a packet can be made of**; those of the other modulation may be anything. -/
structure Meaningful (o : EncodeOptions) : Prop where
  stat : o.stat = -1 ∨ o.stat = 0 ∨ o.stat = 1
  bw : o.modu = .lora → o.bw.toNat ∈ Bandwidth.wholeKhzKeys
  codr : o.modu = .lora → o.codr ∈ CodingRate.aliases

def NamesModulation (o : EncodeOptions) (m : ReceiveModulation) : Prop :=
  match o.modu with
  | .lora => ∃ b c, Bandwidth.ofWholeKhz? o.bw.toNat = some b ∧ CodingRate.ofSpelling? o.codr = some c ∧
      m = .lora ⟨o.sf, b, c, o.snr⟩
  | .fsk => m = .fsk ⟨o.bitrate⟩

theorem modulation_eq_ok {m : ReceiveModulation} : o.modulation = .ok m ↔ o.NamesModulation m := by
  unfold modulation NamesModulation
  cases o.modu with
  | lora =>
    cases Bandwidth.ofWholeKhz? o.bw.toNat with
    | none => simp
    | some b =>
      cases CodingRate.ofSpelling? o.codr with
      | none => simp
      | some c => simp [eq_comm]
  | fsk => simp [eq_comm]

def packetWith (o : EncodeOptions) (now : Instant) (crc : CrcStatus) (m : ReceiveModulation) : ReceivePacket where
  counter := o.tmst
  receivedAt := o.time.getD now
  frequency := Frequency.ofMegahertz o.freq
  ifChain := o.chan
  rfChain := o.rfch
  crc
  modulation := m
  rssi := o.rssi
  payload := bytesOf o.payload

theorem packet_eq_ok : o.packet now = .ok p ↔
    ∃ crc m, CrcStatus.ofCode? o.stat = some crc ∧ o.NamesModulation m ∧ p = o.packetWith now crc m := by
  unfold packet
  cases CrcStatus.ofCode? o.stat with
  | none => simp
  | some crc =>
    simp only [Outcome.bind_eq_ok, modulation_eq_ok, Option.some.injEq, exists_and_left, exists_eq_left']
    refine exists_congr fun m => and_congr_right fun _ => ?_
    exact ⟨fun h => (Except.ok.inj h).symm, fun h => h ▸ rfl⟩

theorem run_eq_ok : (o.run now).result = .ok r ↔ ∃ p, o.packet now = .ok p ∧ r = Uplink.encode p := by
  unfold run
  cases o.packet now with
  | error e => simp
  | ok p => simp [eq_comm]

theorem exists_modulation : (∃ m, o.NamesModulation m) ↔
    (o.modu = .lora → o.bw.toNat ∈ Bandwidth.wholeKhzKeys) ∧ (o.modu = .lora → o.codr ∈ CodingRate.aliases) := by
  rw [← Bandwidth.isSome_ofWholeKhz?, ← CodingRate.isSome_ofSpelling?, Option.isSome_iff_exists,
    Option.isSome_iff_exists]
  unfold NamesModulation
  cases o.modu with
  | lora =>
    simp only [forall_const]
    apply Iff.intro
    · rintro ⟨m, b, c, hb, hc, -⟩
      exact ⟨⟨b, hb⟩, c, hc⟩
    · rintro ⟨⟨b, hb⟩, c, hc⟩
      exact ⟨_, b, c, hb, hc, rfl⟩
  | fsk => exact iff_of_true ⟨_, rfl⟩ ⟨nofun, nofun⟩

/-- **Options are encoded exactly if they mean something.** -/
theorem run_succeeds_iff : (∃ r, (o.run now).result = .ok r) ↔ o.Meaningful := by
  simp only [run_eq_ok, packet_eq_ok]
  apply Iff.intro
  · rintro ⟨r, p, ⟨crc, m, hcrc, hm, -⟩, -⟩
    obtain ⟨hbw, hcodr⟩ := exists_modulation.1 ⟨m, hm⟩
    exact ⟨CrcStatus.isSome_ofCode?.1 (Option.isSome_of_eq_some hcrc), hbw, hcodr⟩
  · intro h
    obtain ⟨crc, hcrc⟩ := Option.isSome_iff_exists.1 (CrcStatus.isSome_ofCode?.2 h.stat)
    obtain ⟨m, hm⟩ := exists_modulation.2 ⟨h.bw, h.codr⟩
    exact ⟨_, _, ⟨crc, m, hcrc, hm, rfl⟩, rfl⟩

/-- options whose measurements are numbers; the payload is a text in memory, so a word counts its bytes -/
structure Measured (o : EncodeOptions) : Prop where
  rssi : ∃ x, o.rssi = .finite x
  snr : o.modu = .lora → ∃ x, o.snr = .finite x
  payload : o.payload.utf8ByteSize < 2 ^ 64

end EncodeOptions

/-! ## Showing a report -/

/-- a text that presents a request: the request itself, or an object with the request as its member `txpk` -/
inductive Presents (w : Json) (t : String) : Prop
  | bare (h : Json.parse (bytesOf t) = .ok w)
  | wrapped {v : Json} (h : Json.parse (bytesOf t) = .ok v) (htxpk : v.get? "txpk" = some w)

def wrap (t : String) : String := "\x7b\"txpk\":" ++ t ++ "\x7d"

theorem bytesOf_wrap (t : String) : bytesOf (wrap t) = objectBytes bytesOf [("txpk", t)] := by
  have hopen : bytesOf "\x7b\"txpk\":" =
      '\x7b'.toUInt8 :: '"'.toUInt8 :: (bytesOf "txpk" ++ ['"'.toUInt8, ':'.toUInt8]) := by
    rw [bytesOf_eq, bytesOf_eq]
    rfl
  have hclose : bytesOf "\x7d" = ['\x7d'.toUInt8] := by
    rw [bytesOf_eq]
    rfl
  simp [wrap, hopen, hclose, objectBytes, membersBytes]

/-- **A report inside of an object is presented by it.** -/
theorem presents_wrapped {p : ReceivePacket} (h : Uplink.Measured p) (hsize : p.payload.length < 2 ^ 64) :
    Presents (.ofMembers (wire p)) (wrap (Uplink.encode p)) := by
  have hfuel : (report p).length ≤ (bytesOf (wrap (Uplink.encode p))).length := by
    refine (length_report_le h).trans ?_
    simp only [wrap, bytesOf_append, List.length_append]
    omega
  have hgives : Gives (value (bytesOf (wrap (Uplink.encode p))).length nestingLimit)
      (objectBytes bytesOf [("txpk", Uplink.encode p)] ++ []) (.ofMembers [("txpk", .ofMembers (wire p))]) [] := by
    -- the object outside takes one level of the nesting, the report inside of it the next
    have hkey : PlainText "txpk" := by decide
    have hone : 1 ≤ (report p).length := Nat.succ_le_succ (Nat.zero_le _)
    exact gives_written bytesOf (fun _ => .ofMembers (wire p)) (List.cons_ne_nil _ _) (List.forall_mem_singleton.2 hkey)
      (List.forall_mem_singleton.2 fun tail _ => gives_encode h hsize hfuel) (hone.trans hfuel)
  rw [List.append_nil, ← bytesOf_wrap] at hgives
  exact .wrapped (parse_eq_ok.2 ⟨[], hgives, rfl⟩) (get?_ofMembers_of_mem (List.nodup_singleton _) List.mem_cons_self)

namespace DecodeOptions

variable {d : DecodeOptions} {fetch : Source → Except ReadFault Json.Bytes} {t : String} {w : Json}
  {p : TransmitPacket}

/-- **The text that is given to the command**: its argument, or the contents of the file that it names, or those of the
standard input. The argument goes first, and what could be fetched does not matter to it. -/
inductive Given (fetch : Source → Except ReadFault Json.Bytes) (t : String) : DecodeOptions → Prop
  | argument {file : Option String} {exclusive : Bool} : Given fetch t ⟨some t, file, exclusive⟩
  | file {path : String} {exclusive : Bool} (hname : '\x00' ∉ path.toList)
      (hfetch : fetch (.file path) = .ok (bytesOf t)) : Given fetch t ⟨none, some path, exclusive⟩
  | standardInput {exclusive : Bool} (hfetch : fetch .standardInput = .ok (bytesOf t)) :
      Given fetch t ⟨none, none, exclusive⟩

theorem Given.read (h : Given fetch t d) : d.source.read (fetch d.source) = .ok (bytesOf t) := by
  cases h with
  | argument => rfl
  | @file path _ hname hfetch =>
    have hnul : ¬path.toList.contains '\x00' = true := by simpa using hname
    exact (if_neg hnul).trans hfetch
  | standardInput hfetch => exact hfetch

theorem run_eq (h : Given fetch t d) : d.run (fetch d.source) = d.runOn (bytesOf t) := by
  have hunicode : unicode (bytesOf t) = .ok (bytesOf t) := by
    unfold unicode
    rw [fromUTF8?_bytesOf]
    rfl
  have hread : (d.source.read (fetch d.source)).bind unicode = .ok (bytesOf t) := by
    rw [h.read]
    exact hunicode
  unfold run
  rw [hread]

/-- **What presents a request is shown as its packet.** -/
theorem runOn_presents (h : Presents w t) (hw : w.get? "txpk" = none) (hp : Downlink.decode d.policy w = .ok p) :
    (d.runOn (bytesOf t)).result = .ok p.shownText := by
  unfold runOn
  rw [← p.block_describe]
  cases h with
  | bare h =>
    simp only [h, hw, Option.getD_none, hp]
  | wrapped h htxpk =>
    simp only [h, htxpk, Option.getD_some, hp]

end DecodeOptions

/-! ## Both commands -/

namespace EncodeOptions

variable {o : EncodeOptions} {now : Instant} {p : ReceivePacket} {m : ReceiveModulation}

def EchoesModulation (o : EncodeOptions) (m : TransmitModulation) : Prop :=
  match o.modu with
  | .lora => ∃ b c, Bandwidth.ofWholeKhz? o.bw.toNat = some b ∧ CodingRate.ofSpelling? o.codr = some c ∧
      m = .lora ⟨o.sf, b, c, false⟩
  | .fsk => m = .fsk ⟨o.bitrate, 0⟩

/-- **The packet to send what the options describe**, at its counter and with defaults for the rest -/
structure Echoes (o : EncodeOptions) (p : TransmitPacket) : Prop where
  immediate : p.immediate = false
  counter : p.counter = o.tmst
  gpsTime : p.gpsTime = none
  frequency : p.frequency = Frequency.ofMegahertz o.freq
  power : p.power = 0
  rfChain : p.rfChain = o.rfch
  noCrc : p.noCrc = false
  preambleLength : p.preambleLength = 0
  modulation : o.EchoesModulation p.modulation
  payload : p.payload = o.payload.toUTF8.toList

theorem NamesModulation.echoes (h : o.NamesModulation m) : o.EchoesModulation (loopbackModulation m) := by
  unfold NamesModulation at h
  unfold EchoesModulation
  cases hmodu : o.modu with
  | lora =>
    rw [hmodu] at h
    obtain ⟨b, c, hb, hc, rfl⟩ := h
    exact ⟨b, c, hb, hc, rfl⟩
  | fsk =>
    rw [hmodu] at h
    obtain rfl := h
    rfl

theorem echoes_loopback (hp : o.packet now = .ok p) : o.Echoes (loopback p) := by
  obtain ⟨crc, m, -, hm, rfl⟩ := packet_eq_ok.1 hp
  exact ⟨rfl, rfl, rfl, rfl, rfl, rfl, rfl, rfl, hm.echoes, rfl⟩

theorem Measured.packet (h : o.Measured) (hp : o.packet now = .ok p) : Uplink.Measured p := by
  obtain ⟨crc, m, -, hm, rfl⟩ := packet_eq_ok.1 hp
  refine ⟨h.rssi, fun s hs => ?_⟩
  obtain rfl : m = .lora s := hs
  unfold NamesModulation at hm
  cases hmodu : o.modu with
  | lora =>
    rw [hmodu] at hm
    obtain ⟨b, c, -, -, heq⟩ := hm
    obtain rfl := ReceiveModulation.lora.inj heq
    exact h.snr hmodu
  | fsk =>
    rw [hmodu] at hm
    cases hm

theorem Measured.length_payload (h : o.Measured) (hp : o.packet now = .ok p) : p.payload.length < 2 ^ 64 := by
  obtain ⟨crc, m, -, -, rfl⟩ := packet_eq_ok.1 hp
  have hlength : (bytesOf o.payload).length = o.payload.utf8ByteSize := by
    rw [bytesOf, toList_eq_data]
    rfl
  change (bytesOf o.payload).length < 2 ^ 64
  rw [hlength]
  exact h.payload

/-- **The commands compose.** Options are encoded exactly if they mean something. What is written is then an object; the
text of it is one that presents it, and so is that text inside of another object. Whatever presents it is shown as one
packet that echoes the options, in whatever way it is given and under either policy; and what is shown determines this
packet. -/
theorem operations_compose (o : EncodeOptions) (now : Instant) :
    ((∃ r, (o.run now).result = .ok r) ↔ o.Meaningful) ∧
    ∀ r, (o.run now).result = .ok r → o.Measured →
      ∃ ms p, Json.parse r.toUTF8.toList = .ok (.obj ms) ∧ Presents (.obj ms) (wrap r) ∧ o.Echoes p ∧
        (∀ (d : DecodeOptions) fetch t, Presents (.obj ms) t → DecodeOptions.Given fetch t d →
          (d.run (fetch d.source)).result = .ok p.shownText) ∧
        ∀ q : TransmitPacket, q.shownText = p.shownText → q = p := by
  refine ⟨run_succeeds_iff, fun r hr h => ?_⟩
  obtain ⟨p, hp, rfl⟩ := run_eq_ok.1 hr
  have hmeasured := h.packet hp
  have hsize := h.length_payload hp
  refine ⟨sortMembers (wire p), loopback p, ?_⟩
  rw [← ofMembers_eq]
  refine ⟨parse_encode hmeasured hsize, presents_wrapped hmeasured hsize, echoes_loopback hp,
    fun d fetch t hpresents hgiven => ?_, fun q => TransmitPacket.shownText_inj⟩
  rw [DecodeOptions.run_eq hgiven]
  exact DecodeOptions.runOn_presents hpresents (get?_txpk p) (decode_wire d.policy p)

/-- options at 867.5 megahertz, whose bandwidth is not a whole number of kilohertz -/
def aliasedOptions : EncodeOptions where
  tmst := 4294967295
  time := some ⟨1500000000, 0, by decide⟩
  chan := 2
  rfch := 1
  freq := .finite ⟨false, 7630610696765440, -43, by decide⟩
  stat := -1
  modu := .lora
  sf := 9
  bw := 62
  codr := "1/2"
  bitrate := 0
  snr := .finite ⟨true, 8388608, -22, by decide⟩
  rssi := .finite ⟨true, 8388608, -17, by decide⟩
  payload := "é"

/-- the report as an argument, and in a file inside of an object -/
theorem aliasedOptions_shown : ∃ (r : String) (p : TransmitPacket),
    (aliasedOptions.run ⟨0, 0, by decide⟩).result = .ok r ∧
    p.frequency = 867500000 ∧ p.modulation = .lora ⟨9, .khz62, .fourEighths, false⟩ ∧ p.payload = [0xc3, 0xa9] ∧
    ∀ exclusive,
      (DecodeOptions.run ⟨some r, none, exclusive⟩ (.error .missing)).result = .ok p.shownText ∧
      (DecodeOptions.run ⟨none, some "report", exclusive⟩ (.ok (wrap r).toUTF8.toList)).result =
        .ok p.shownText := by
  have hmeaningful : aliasedOptions.Meaningful := ⟨by decide, by decide, by decide⟩
  have hmeasured : aliasedOptions.Measured := ⟨⟨_, rfl⟩, fun _ => ⟨_, rfl⟩, by decide⟩
  obtain ⟨hsucceeds, hcompose⟩ := operations_compose aliasedOptions ⟨0, 0, by decide⟩
  obtain ⟨r, hr⟩ := hsucceeds.2 hmeaningful
  obtain ⟨ms, p, hparse, hwrapped, hechoes, hshown, -⟩ := hcompose r hr hmeasured
  have hfrequency : Frequency.ofMegahertz aliasedOptions.freq = 867500000 := by decide +kernel
  have hpayload : aliasedOptions.payload.toUTF8.toList = [0xc3, 0xa9] := by decide +kernel
  obtain ⟨b, c, hb, hc, hmodulation⟩ := hechoes.modulation
  obtain rfl : Bandwidth.khz62 = b := Option.some.inj hb
  obtain rfl : CodingRate.fourEighths = c := Option.some.inj hc
  exact ⟨r, p, hr, hechoes.frequency.trans hfrequency, hmodulation, hechoes.payload.trans hpayload, fun exclusive =>
    ⟨hshown _ (fun _ => .error .missing) r (.bare hparse) .argument,
      hshown _ (fun _ => .ok (wrap r).toUTF8.toList) (wrap r) hwrapped (.file (by decide) rfl)⟩⟩

end EncodeOptions

end CommandLine

end PacketForwarder
