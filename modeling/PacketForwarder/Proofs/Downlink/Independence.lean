/-
Which fields of a request matter to what. Two requests that differ in some fields are compared by their answers.

Results:
- `fields_independent`: keys that are no fields change nothing, not even an error. What only LoRa has (`codr`, `ipol`)
  does not matter to FSK, nor what only FSK has (`fdev`) to LoRa. The scheduling fields decide nothing but when a packet
  is sent, if the policy lets the first of them count; so a GPS time, however late, fails no request.
- `latestTime_accepted`: requests that differ in these ways.

The way there: objects that agree in a field have the same record there (`ofJson_agreeBut`), and a setting that the
modulation does not look at can be replaced in a request (`decode_fsk`, `decode_lora`).
-/
import PacketForwarder.Proofs.Downlink.Scheduling

namespace PacketForwarder

open Json Request

/-! ## Requests that differ in some fields -/

namespace Request

variable {ms ms' : List (String × Json)} {ks : List Key} {k : Key} {r s : Request} {rec : schema.Record} {v : Json}

/-- two values give the same for every field but these -/
def AgreeBut (ks : List Key) (v w : Json) : Prop := ∀ k : Key, k ∉ ks → v.get? k.name = w.get? k.name

theorem agreeBut_append {more : List (String × Json)} (h : ∀ k : Key, k ∉ ks → k.name ∉ names more) :
    AgreeBut ks (.ofMembers ms) (.ofMembers (ms ++ more)) := by
  intro k hk
  have hnone : more.reverse.lookup k.name = none := by
    refine List.lookup_eq_none_iff.2 fun m hm => ?_
    have hne : m.1 ≠ k.name := fun heq => h k hk (heq ▸ List.mem_map_of_mem (List.mem_reverse.1 hm))
    simpa using Ne.symm hne
  rw [get?_ofMembers, get?_ofMembers, List.reverse_append, List.lookup_append, hnone]
  rfl

def withFields (ks : List Key) (other rec : schema.Record) : schema.Record :=
  fun (k : Key) => if k ∈ ks then other k else rec k

/-- **Objects that agree in all fields but some hold requests that differ in these alone.** -/
theorem ofJson_agreeBut (hr : Request.ofJson (.ofMembers ms) = .ok r) (hs : Request.ofJson (.ofMembers ms') = .ok s)
    (h : AgreeBut ks (.ofMembers ms) (.ofMembers ms')) :
    ∃ rec other, r = ofRecord rec ∧ s = ofRecord (withFields ks other rec) := by
  obtain ⟨rec, hrec, rfl⟩ := Outcome.map_eq_ok.1 hr
  obtain ⟨other, hother, rfl⟩ := Outcome.map_eq_ok.1 hs
  refine ⟨rec, other, rfl, congrArg ofRecord (funext fun (k : Key) => ?_)⟩
  unfold withFields
  split_ifs with hk
  · rfl
  · exact (singleNames.eq_of_get? hrec hother (h k hk)).symm

/-! ## Fields that are not looked at -/

variable {policy : SchedulePolicy}

theorem modulation_fsk (h : r.modu = "FSK") : r.modulation = .fsk <$> r.fsk := by
  unfold modulation
  rw [h]
  rfl

theorem modulation_lora (h : r.modu = "LORA") : r.modulation = .lora <$> r.lora := by
  unfold modulation
  rw [h]
  rfl

theorem decode_precedence (r : Request) : r.decode .precedence =
    (do let m ← r.modulation; let bytes ← r.payload; return r.packet m bytes) := by
  unfold decode
  rw [checkSchedule_precedence]
  rfl

theorem decode_fsk (h : r.modu = "FSK") (codr : String) (ipol : Bool) :
    ({ r with codr, ipol } : Request).decode policy = r.decode policy := by
  have hmodulation : ({ r with codr, ipol } : Request).modulation = r.modulation := by
    rw [modulation_fsk h, modulation_fsk (r := { r with codr, ipol }) h]
    rfl
  unfold decode
  rw [hmodulation]
  rfl

theorem decode_lora (h : r.modu = "LORA") (fdev : Double) :
    ({ r with fdev } : Request).decode policy = r.decode policy := by
  have hmodulation : ({ r with fdev } : Request).modulation = r.modulation := by
    rw [modulation_lora h, modulation_lora (r := { r with fdev }) h]
    rfl
  unfold decode
  rw [hmodulation]
  rfl

theorem decode_scheduled (r : Request) (imme : Bool) (tmst : Option UInt32) (tmms : Option UInt64) :
    ({ r with imme, tmst, tmms } : Request).decode .precedence =
      (fun p => { p with immediate := imme, counter := tmst.getD 0, gpsTime := tmms }) <$> r.decode .precedence := by
  rw [decode_precedence, decode_precedence, map_bind]
  refine bind_congr fun m => ?_
  rw [map_bind]
  rfl

end Request

/-! ## Answers -/

namespace Downlink

variable {ms ms' : List (String × Json)} {policy : SchedulePolicy} {r s : Request}

/-- the same error, or packets that differ in nothing but when they are sent -/
def SameButTimes (a b : Except DecodeError TransmitPacket) : Prop :=
  (∃ e, a = .error e ∧ b = .error e) ∨ ∃ p q, a = .ok p ∧ b = .ok q ∧
    q = { p with immediate := q.immediate, counter := q.counter, gpsTime := q.gpsTime }

theorem decode_unknownKeys (h : AgreeBut [] (.ofMembers ms) (.ofMembers ms')) :
    decode policy (.ofMembers ms) = decode policy (.ofMembers ms') := by
  have hsame : schema.ofJson (.ofMembers ms) = schema.ofJson (.ofMembers ms') := by
    refine Schema.ofJson_congr fun name hname => ?_
    obtain ⟨k, hk⟩ := Option.isSome_iff_exists.1 hname
    rw [singleNames.key?_eq_some.1 hk]
    exact h k List.not_mem_nil
  unfold decode Request.ofJson
  rw [hsame]

theorem modu_of_ofJson {name : String} (hr : Request.ofJson (.ofMembers ms) = .ok r)
    (hmodu : (Json.ofMembers ms).get? "modu" = some (.str name)) : r.modu = name := by
  have hgiven : (Json.ofMembers ms).get? "modu" = some (.str r.modu) := (holds_of_ofJson hr).modu
  rw [hmodu] at hgiven
  exact (Json.str.inj (Option.some.inj hgiven)).symm

theorem decode_fskOthers (hr : Request.ofJson (.ofMembers ms) = .ok r) (hs : Request.ofJson (.ofMembers ms') = .ok s)
    (hmodu : (Json.ofMembers ms).get? "modu" = some (.str "FSK"))
    (h : AgreeBut [.codr, .ipol] (.ofMembers ms) (.ofMembers ms')) :
    decode policy (.ofMembers ms) = decode policy (.ofMembers ms') := by
  have hname := modu_of_ofJson hr hmodu
  obtain ⟨rec, other, rfl, rfl⟩ := ofJson_agreeBut hr hs h
  rw [decode_of_ofJson hr, decode_of_ofJson hs]
  exact (decode_fsk hname (other Key.codr) (other Key.ipol)).symm

theorem decode_loraOthers (hr : Request.ofJson (.ofMembers ms) = .ok r) (hs : Request.ofJson (.ofMembers ms') = .ok s)
    (hmodu : (Json.ofMembers ms).get? "modu" = some (.str "LORA"))
    (h : AgreeBut [.fdev] (.ofMembers ms) (.ofMembers ms')) :
    decode policy (.ofMembers ms) = decode policy (.ofMembers ms') := by
  have hname := modu_of_ofJson hr hmodu
  obtain ⟨rec, other, rfl, rfl⟩ := ofJson_agreeBut hr hs h
  rw [decode_of_ofJson hr, decode_of_ofJson hs]
  exact (decode_lora hname (other Key.fdev)).symm

/-- the scheduling fields change nothing but when a packet is sent -/
theorem decode_otherTimes (hr : Request.ofJson (.ofMembers ms) = .ok r) (hs : Request.ofJson (.ofMembers ms') = .ok s)
    (h : AgreeBut [.imme, .tmst, .tmms] (.ofMembers ms) (.ofMembers ms')) :
    SameButTimes (decode .precedence (.ofMembers ms)) (decode .precedence (.ofMembers ms')) := by
  rw [decode_of_ofJson hr, decode_of_ofJson hs]
  obtain ⟨rec, other, rfl, rfl⟩ := ofJson_agreeBut hr hs h
  have hretimed := decode_scheduled (ofRecord rec) (ofRecord other).imme (ofRecord other).tmst (ofRecord other).tmms
  have hreplaced : ofRecord (withFields [.imme, .tmst, .tmms] other rec) = { ofRecord rec with
      imme := (ofRecord other).imme
      tmst := (ofRecord other).tmst
      tmms := (ofRecord other).tmms } := rfl
  rw [hreplaced, hretimed]
  cases (ofRecord rec).decode .precedence with
  | error e => exact Or.inl ⟨e, rfl, rfl⟩
  | ok p => exact Or.inr ⟨p, _, rfl, rfl, rfl⟩

theorem ofJson_gpsTime {rec : schema.Record} (t : UInt64) (hrec : schema.ofJson (.ofMembers ms) = .ok rec) :
    Request.ofJson (.ofMembers (ms ++ [("tmms", .int t.toNat)])) = .ok { ofRecord rec with tmms := some t } := by
  have htime : (schema.kind Key.tmms).ofJson (.int t.toNat) = .ok (some t.toBitVec : Option (BitVec 64)) :=
    Kind.optional_eq_ok.2 (Or.inr ⟨t.toBitVec, rfl, nofun, Kind.natural_eq_ok.2 rfl⟩)
  exact Outcome.map_eq_ok.2 ⟨_, singleNames.ofJson_concat htime hrec, rfl⟩

/-- a GPS time of any size is accepted, whatever time was asked for before -/
theorem decode_gpsTime {p : TransmitPacket} (t : UInt64) (hp : decode .precedence (.ofMembers ms) = .ok p) :
    decode .precedence (.ofMembers (ms ++ [("tmms", .int t.toNat)])) = .ok { p with gpsTime := some t } := by
  obtain ⟨r, hr, hp⟩ := ofJson_of_decode hp
  obtain ⟨rec, hrec, rfl⟩ := Outcome.map_eq_ok.1 hr
  obtain ⟨-, m, bytes, hm, hdata, rfl⟩ := decode_eq_ok_iff.1 hp
  rw [decode_of_ofJson (ofJson_gpsTime t hrec)]
  exact decode_eq_ok_iff.2 ⟨nofun, m, bytes, hm, hdata, rfl⟩

/-- **Fields do not interfere.** Of two objects that differ in keys that are no fields, or in fields that their
modulation does not look at, the answers are the same. Where they differ in the scheduling fields, so do the packets,
but no request fails for them. -/
theorem fields_independent (ms ms' : List (String × Json)) :
    (AgreeBut [] (.ofMembers ms) (.ofMembers ms') →
      ∀ policy, decode policy (.ofMembers ms) = decode policy (.ofMembers ms')) ∧
    (∀ r s, Request.ofJson (.ofMembers ms) = .ok r → Request.ofJson (.ofMembers ms') = .ok s →
      ((Json.ofMembers ms).get? "modu" = some (.str "FSK") → AgreeBut [.codr, .ipol] (.ofMembers ms) (.ofMembers ms') →
        ∀ policy, decode policy (.ofMembers ms) = decode policy (.ofMembers ms')) ∧
      ((Json.ofMembers ms).get? "modu" = some (.str "LORA") → AgreeBut [.fdev] (.ofMembers ms) (.ofMembers ms') →
        ∀ policy, decode policy (.ofMembers ms) = decode policy (.ofMembers ms')) ∧
      (AgreeBut [.imme, .tmst, .tmms] (.ofMembers ms) (.ofMembers ms') →
        SameButTimes (decode .precedence (.ofMembers ms)) (decode .precedence (.ofMembers ms')))) ∧
    ∀ p (t : UInt64), decode .precedence (.ofMembers ms) = .ok p →
      decode .precedence (.ofMembers (ms ++ [("tmms", .int t.toNat)])) = .ok { p with gpsTime := some t } := by
  refine ⟨fun h policy => decode_unknownKeys h, fun r s hr hs => ⟨?_, ?_, ?_⟩, fun p t hp => decode_gpsTime t hp⟩
  · exact fun hmodu h policy => decode_fskOthers hr hs hmodu h
  · exact fun hmodu h policy => decode_loraOthers hr hs hmodu h
  · exact decode_otherTimes hr hs

def fskMembers : List (String × Json) := briefRequest "FSK" (.int 50000)

def loraMembers : List (String × Json) := briefRequest "LORA" (.str "SF7BW125")

/-- objects that differ in each of these ways, and the greatest GPS time -/
theorem latestTime_accepted :
    (∀ policy, decode policy (.ofMembers fskMembers) = decode policy (.ofMembers (fskMembers ++ [("brd", .null)]))) ∧
    (∀ policy, decode policy (.ofMembers fskMembers) =
      decode policy (.ofMembers (fskMembers ++ [("codr", .str "9/9"), ("ipol", .bool true)]))) ∧
    (∀ policy, decode policy (.ofMembers loraMembers) =
      decode policy (.ofMembers (loraMembers ++ [("fdev", .int 25000)]))) ∧
    SameButTimes (decode .precedence (.ofMembers fskMembers))
      (decode .precedence (.ofMembers (fskMembers ++ [("imme", .bool true)]))) ∧
    ∃ p, decode .precedence (.ofMembers (fskMembers ++ [("tmms", .int 18446744073709551615)])) = .ok p ∧
      p.gpsTime = some 18446744073709551615 := by
  have hread : ∀ v : Json, (Request.ofJson v).toOption.isSome = true → ∃ r, Request.ofJson v = .ok r :=
    fun v => Outcome.isSome_toOption.1
  obtain ⟨fsk, hfsk⟩ := hread (.ofMembers fskMembers) (by decide +kernel)
  obtain ⟨lora, hlora⟩ := hread (.ofMembers loraMembers) (by decide +kernel)
  refine ⟨(fields_independent _ _).1 ?_, ?_, ?_, ?_, ?_⟩
  · refine agreeBut_append fun k => ?_
    cases k <;> decide
  · obtain ⟨s, hs⟩ := hread (.ofMembers (fskMembers ++ [("codr", .str "9/9"), ("ipol", .bool true)]))
      (by decide +kernel)
    refine ((fields_independent _ _).2.1 fsk s hfsk hs).1 rfl (agreeBut_append fun k => ?_)
    cases k <;> decide
  · obtain ⟨s, hs⟩ := hread (.ofMembers (loraMembers ++ [("fdev", .int 25000)])) (by decide +kernel)
    refine ((fields_independent _ _).2.1 lora s hlora hs).2.1 rfl (agreeBut_append fun k => ?_)
    cases k <;> decide
  · obtain ⟨s, hs⟩ := hread (.ofMembers (fskMembers ++ [("imme", .bool true)])) (by decide +kernel)
    refine ((fields_independent _ _).2.1 fsk s hfsk hs).2.2 (agreeBut_append fun k => ?_)
    cases k <;> decide
  · have hok : (decode .precedence (.ofMembers fskMembers)).toOption.isSome = true := by decide +kernel
    obtain ⟨p, hp⟩ := Outcome.isSome_toOption.1 hok
    exact ⟨_, (fields_independent _ []).2.2 p 18446744073709551615 hp, rfl⟩

end Downlink

end PacketForwarder
