/-
The text of a payload. Reports write payloads in base 64, and requests read them back. Both keep to one spelling: each
payload has one text, which every report of it has, and no request is accepted with another.

Results:
- `payloadText_canonical`: the text in the reports of a packet is the standard one of its payload, and every request
  that is accepted is accepted with this text too and then has this payload. The text that a request was accepted with
  is the one in the reports of its payload; so no two texts stand for one payload.
- `oneByte_sentOn`: a byte that is received and sent on.

The way there: what a report emits is `Base64.encode` of its payload, as a value and as a text (`emits_encode`), and
nothing else is accepted for these bytes (`data_of_decode`).
-/
import PacketForwarder.Proofs.Downlink.Independence
import PacketForwarder.Proofs.Text.Base64Format
import PacketForwarder.Proofs.Uplink.Syntax
import PacketForwarder.Proofs.Uplink.TwoEncoders

namespace PacketForwarder

open Json Reader Request

/-! ## Reports -/

namespace Uplink

variable {q : ReceivePacket} {s : String}

/-- **The text of a payload in the reports of a packet**: in the value, and in the text, which ends with the size and
the data also where a measurement that is no number spoils it. -/
structure Emits (q : ReceivePacket) (s : String) : Prop where
  value : (encodeJson q).get? "data" = some (.str s)
  size : (encodeJson q).get? "size" = some (.int q.payload.length)
  text : ∃ front, encode q = front ++ ",\"size\":" ++ toString q.payload.length ++ ",\"data\":\"" ++ s ++ "\"\x7d"
  read : Measured q → ∀ v, Json.parse (encode q).toUTF8.toList = .ok v → v.get? "data" = some (.str s)

def payloadReport (bytes : List UInt8) : List (String × Cell) :=
  [("size", .nat bytes.length), ("data", .inQuotes (Base64.encode bytes))]

/-- a report ends with the payload, and has fields before it -/
theorem report_eq_append (q : ReceivePacket) :
    ∃ fields, fields ≠ [] ∧ report q = fields ++ payloadReport q.payload := by
  obtain ⟨front, hfront⟩ : ∃ front, report q =
      front ++ ("rssi", .bare (q.rssi.fixed rssiPlaces)) :: payloadReport q.payload := ⟨_, rfl⟩
  refine ⟨front ++ [("rssi", .bare (q.rssi.fixed rssiPlaces))], List.append_ne_nil_of_right_ne_nil _ nofun, ?_⟩
  rw [hfront, List.append_assoc, List.singleton_append]

theorem encode_endsWith (q : ReceivePacket) : ∃ front, encode q =
    front ++ ",\"size\":" ++ toString q.payload.length ++ ",\"data\":\"" ++ Base64.encode q.payload ++ "\"\x7d" := by
  obtain ⟨fields, hfields, hreport⟩ := report_eq_append q
  have hencode : encode q = "\x7b" ++ fieldsText (fields ++ payloadReport q.payload) ++ "\x7d" := by
    rw [← hreport]
    rfl
  have hpayload : payloadReport q.payload ≠ [] := List.cons_ne_nil _ _
  refine ⟨"\x7b" ++ fieldsText fields, ?_⟩
  rw [hencode, fieldsText_append hfields hpayload]
  refine String.toList_inj.1 ?_
  simp [payloadReport, fieldsText, fieldText, Cell.text, Cell.nat, String.intercalate_cons_cons]

theorem get?_encodeJson {key : String} {v : Json} (h : (key, v) ∈ members q) : (encodeJson q).get? key = some v :=
  get?_ofMembers_of_mem (names_members q ▸ nodup_reportKeys _) h

/-- **A report emits its payload in base 64.** -/
theorem emits_encode (q : ReceivePacket) : Emits q (Base64.encode q.payload) where
  value := get?_encodeJson (by simp [members])
  size := get?_encodeJson (by simp [members])
  text := encode_endsWith q
  read hq v hv := by
    have hcell : ("data", Cell.inQuotes (Base64.encode q.payload)) ∈ report q := by simp [report]
    rw [get?_encode hq hv hcell, (Cell.legible_inQuotes (Base64.encode_plain _)).2]

theorem Emits.eq_encode (h : Emits q s) : s = Base64.encode q.payload := by
  have hvalue := (emits_encode q).value
  rw [h.value] at hvalue
  exact Json.str.inj (Option.some.inj hvalue)

end Uplink

/-! ## Requests -/

namespace Downlink

variable {v : Json} {policy : SchedulePolicy} {p : TransmitPacket}

/-- A text stands for bytes: an object that differs from one that is accepted in its data alone, and has this text
there, is accepted too and sends these bytes. -/
def StandsFor (s : String) (bytes : List UInt8) : Prop :=
  ∀ policy ms ms' p, decode policy (.ofMembers ms) = .ok p → AgreeBut [.data] (.ofMembers ms) (.ofMembers ms') →
    (Json.ofMembers ms').get? "data" = some (.str s) →
      decode policy (.ofMembers ms') = .ok { p with payload := bytes }

theorem standsFor_encode (bytes : List UInt8) : StandsFor (Base64.encode bytes) bytes := by
  intro policy ms ms' p hp hagree hdata
  obtain ⟨r, hr, hp⟩ := ofJson_of_decode hp
  obtain ⟨rec, hrec, rfl⟩ := Outcome.map_eq_ok.1 hr
  obtain ⟨hschedule, m, -, hm, -, rfl⟩ := decode_eq_ok_iff.1 hp
  have hgiven : (Json.ofMembers ms').get? (schema.name Key.data) = some (.str (Base64.encode bytes)) := hdata
  have htext : (schema.kind Key.data).ofJson (.str (Base64.encode bytes)) = .ok (Base64.encode bytes) :=
    Kind.text_eq_ok.2 rfl
  have hread : Request.ofJson (.ofMembers ms') = .ok { ofRecord rec with data := Base64.encode bytes } := by
    refine Outcome.map_eq_ok.2 ⟨_, singleNames.ofJson_update hrec hgiven htext fun (k : Key) hk => ?_, rfl⟩
    exact hagree k (List.mem_singleton.not.2 hk)
  rw [decode_of_ofJson hread]
  exact decode_eq_ok_iff.2 ⟨hschedule, m, bytes, hm, rfl, rfl⟩

/-- **A request is accepted with one text for its payload.** -/
theorem data_of_decode (h : decode policy v = .ok p) :
    (asObject v).get? "data" = some (.str (Base64.encode p.payload)) := by
  obtain ⟨r, hr, hp⟩ := ofJson_of_decode h
  obtain ⟨-, m, bytes, -, hdata, rfl⟩ := decode_eq_ok_iff.1 hp
  have hgiven := (holds_asObject hr).data
  rw [hdata] at hgiven
  exact hgiven

/-- **The text of a payload is canonical.** Of every packet received, both reports emit the standard text of its payload
and its size, and a request is accepted with that text for that payload. Of every packet to send, the text that its
request had is the one that reports of this payload emit. Two texts that were accepted stand for two payloads. -/
theorem payloadText_canonical :
    (∀ q : ReceivePacket, ∃ s, Uplink.Emits q s ∧ Base64.Spells q.payload s ∧ StandsFor s q.payload) ∧
    (∀ policy v p, decode policy v = .ok p → ∀ q : ReceivePacket, q.payload = p.payload →
      ∀ s, (asObject v).get? "data" = some (.str s) ↔ Uplink.Emits q s) ∧
    ∀ policy policy' v v' p p' s s', decode policy v = .ok p → decode policy' v' = .ok p' →
      (asObject v).get? "data" = some (.str s) → (asObject v').get? "data" = some (.str s') →
      p.payload = p'.payload → s = s' := by
  refine ⟨fun q => ?_, ?_, ?_⟩
  · exact ⟨_, Uplink.emits_encode q, Base64.spells_encode _, standsFor_encode _⟩
  · intro policy v p h q hq s
    rw [data_of_decode h, ← hq]
    apply Iff.intro
    · intro hs
      obtain rfl := Json.str.inj (Option.some.inj hs)
      exact Uplink.emits_encode q
    · intro hs
      rw [hs.eq_encode]
  · intro policy policy' v v' p p' s s' h h' hs hs' hpayload
    rw [data_of_decode h, hpayload] at hs
    rw [data_of_decode h'] at hs'
    exact Json.str.inj (Option.some.inj (hs.symm.trans hs'))

/-- the sample packet with one byte, which leaves four bits of its last symbol over -/
def oneByte : ReceivePacket := { ReceivePacket.sample with payload := [255] }

/-- a byte that is received and sent on, by the text of its report -/
theorem oneByte_sentOn : Uplink.Emits oneByte "/w==" ∧
    ∃ p, decode .precedence (.ofMembers (fskMembers ++ [("data", .str "/w==")])) = .ok p ∧ p.payload = [255] := by
  have hsome : ∀ ms, (decode .precedence (.ofMembers ms)).toOption.isSome = true →
      ∃ p, decode .precedence (.ofMembers ms) = .ok p := fun ms => Outcome.isSome_toOption.1
  obtain ⟨s, hs, -, hstands⟩ := payloadText_canonical.1 oneByte
  obtain ⟨p, hp⟩ := hsome fskMembers (by decide +kernel)
  have hdata : (Json.ofMembers (fskMembers ++ [("data", .str s)])).get? "data" = some (.str s) :=
    get?_ofMembers_concat.trans (if_pos rfl)
  have hagree : AgreeBut [.data] (.ofMembers fskMembers) (.ofMembers (fskMembers ++ [("data", .str s)])) := by
    refine agreeBut_append fun k hk hname => hk ?_
    have hkey : schema.name k = schema.name Key.data := List.mem_singleton.1 hname
    exact List.mem_singleton.2 (singleNames.injective hkey)
  have hsent := hstands .precedence fskMembers _ p hp hagree hdata
  have hgiven := (payloadText_canonical.2.1 _ _ _ hsent oneByte rfl s).2 hs
  obtain ⟨p', hp'⟩ := hsome (loraMembers ++ [("data", .str "/w==")]) (by decide +kernel)
  have hpayload : (decode .precedence (.ofMembers (loraMembers ++ [("data", .str "/w==")]))).toOption.map
      TransmitPacket.payload = some [255] := by decide +kernel
  rw [hp'] at hpayload
  obtain rfl := payloadText_canonical.2.2 _ _ _ _ _ _ _ "/w==" hsent hp' hgiven (by rfl)
    (Option.some.inj hpayload).symm
  exact ⟨hs, _, hsent, rfl⟩

end Downlink

end PacketForwarder
