/-
Which error a request gets that is wrong in several ways. `Check.order` lists the checks, and `Fails` says on the wire
when one of them fails, whatever becomes of the others. The checks of the two modulations stand in one list: those of
LoRa only fail where LoRa is named, and that of FSK where FSK is.

Results:
- `decode_fails_first`: an error is given for a check if and only if this one fails and none before it does. Neither a
  datarate nor a key that is no field makes a request malformed, and no error of a modulation is given for the other.
- `severalFaults_ordered`: a request that is wrong in its schedule, its bandwidth, its coding rate and its payload.

The way there: every way to refuse a request is that of its first check (`failsFirst_of_refused`), and there is only one
such check (`FailsFirst.unique`).
-/
import PacketForwarder.Proofs.Downlink.Independence
import PacketForwarder.Proofs.Downlink.Refusals

namespace PacketForwarder

open Json Request

/-! ## The checks -/

inductive Check where
  /-- a value of its kind in every field -/
  | fields
  | schedule
  | modulation
  /-- the type of the datarate, for a modulation -/
  | datarateType (m : Modulation)
  | datarateFormat
  | bandwidth
  | codingRate
  | payload
  deriving DecidableEq

namespace Check

def order : List Check :=
  [fields, schedule, modulation, datarateType .lora, datarateFormat, bandwidth, codingRate, datarateType .fsk, payload]

theorem mem_order (c : Check) : c ∈ order := by
  cases c with
  | datarateType m => cases m <;> decide
  | fields | schedule | modulation | datarateFormat | bandwidth | codingRate | payload => decide

def earlier (c : Check) : List Check := order.takeWhile (· ≠ c)

theorem ne_of_mem_earlier {c c' : Check} (h : c' ∈ c.earlier) : c' ≠ c := by
  simpa using List.mem_takeWhile_imp h

/-- the modulation that alone has this check -/
def modulation? : Check → Option Modulation
  | datarateType m => some m
  | datarateFormat | bandwidth | codingRate => some .lora
  | fields | schedule | modulation | payload => none

end Check

def DecodeError.check : DecodeError → Check
  | malformed _ => .fields
  | schedule _ => .schedule
  | unknownModulation _ => .modulation
  | datarateType m _ => .datarateType m
  | datarateFormat _ => .datarateFormat
  | unknownBandwidth _ _ => .bandwidth
  | unknownCodingRate _ => .codingRate
  | payload _ _ => .payload

/-- of two members of a list, one stands before the other -/
theorem mem_takeWhile_of_ne {α : Type} [DecidableEq α] {a b : α} (hne : a ≠ b) {l : List α} (ha : a ∈ l) (hb : b ∈ l) :
    a ∈ l.takeWhile (· ≠ b) ∨ b ∈ l.takeWhile (· ≠ a) := by
  induction l with
  | nil => cases ha
  | cons x l ih =>
    rcases eq_or_ne x a with rfl | hxa
    · exact Or.inl (by simp [hne])
    rcases eq_or_ne x b with rfl | hxb
    · exact Or.inr (by simp [hxa])
    have htail := ih (List.mem_of_ne_of_mem hxa.symm ha) (List.mem_of_ne_of_mem hxb.symm hb)
    rw [List.takeWhile_cons_of_pos (by simpa using hxb), List.takeWhile_cons_of_pos (by simpa using hxa)]
    exact htail.imp (List.mem_cons_of_mem x) (List.mem_cons_of_mem x)

namespace Downlink

variable {v : Json} {r : Request} {policy : SchedulePolicy} {e : DecodeError} {c c' : Check} {m m' : Modulation}
  {ms ms' : List (String × Json)}

/-! ## Checks on the wire -/

def Names (v : Json) (m : Modulation) : Prop := v.get? "modu" = some (.str m.wireName)

/-- **When a check fails**, on the wire and whatever becomes of the others. A coding rate that is left out counts as
the empty text. -/
def Fails (policy : SchedulePolicy) (v : Json) : Check → Prop
  | .fields => ¬WellTyped v
  | .schedule => policy = .exclusive ∧ ¬∃! f, Sets v f
  | .modulation => ∀ m, ¬Names v m
  | .datarateType .lora => Names v .lora ∧ ∀ word, v.get? "datr" ≠ some (.str word)
  | .datarateFormat => Names v .lora ∧ ∃ word, v.get? "datr" = some (.str word) ∧ Datarate.parse word = .error .format
  | .bandwidth => Names v .lora ∧
    ∃ word khz, v.get? "datr" = some (.str word) ∧ Datarate.parse word = .error (.bandwidth khz)
  | .codingRate => Names v .lora ∧
    ∃ s, LeftOutOr (v.get? "codr") (s = "") (.str s) ∧ ∀ c : CodingRate, s ∉ c.spellings
  | .datarateType .fsk => Names v .fsk ∧ ¬Is (v.get? "datr") Json.IsNumber
  | .payload => ∀ bytes, v.get? "data" ≠ some (.str (Base64.encode bytes))

/-- a check fails, and none before it -/
def FailsFirst (policy : SchedulePolicy) (v : Json) (c : Check) : Prop :=
  Fails policy v c ∧ ∀ c' ∈ c.earlier, ¬Fails policy v c'

theorem FailsFirst.unique (h : FailsFirst policy v c) (h' : FailsFirst policy v c') : c = c' := by
  by_contra hne
  rcases mem_takeWhile_of_ne hne c.mem_order c'.mem_order with hmem | hmem
  · exact h'.2 c hmem h.1
  · exact h.2 c' hmem h'.1

/-! ## Checks that do not fail -/

theorem Names.unique (h : Names v m) (h' : Names v m') : m = m' := by
  have hname : m.wireName = m'.wireName := Json.str.inj (Option.some.inj (h.symm.trans h'))
  have hsome := Modulation.ofWireName?_eq_some.2 hname
  rw [Modulation.ofWireName?_eq_some.2 rfl] at hsome
  exact Option.some.inj hsome

theorem names_iff (hv : Holds v r) : Names v m ↔ r.modu = m.wireName := by
  unfold Names
  rw [hv.modu]
  simp

/-- the check of a modulation fails where this modulation is named -/
theorem names_of_fails (hc : c.modulation? = some m) (h : Fails policy v c) : Names v m := by
  cases c with
  | datarateType m' =>
    obtain rfl := Option.some.inj hc
    cases m' with
    | lora => exact h.1
    | fsk => exact h.1
  | datarateFormat | bandwidth | codingRate =>
    obtain rfl := Option.some.inj hc
    exact h.1
  | fields | schedule | modulation | payload => cases hc

theorem not_fails_other (hm : Names v m) (hc : c.modulation? = some m') (hne : m' ≠ m) : ¬Fails policy v c :=
  fun h => hne ((names_of_fails hc h).unique hm)

theorem not_fails_fields (hv : Holds v r) : ¬Fails policy v .fields := not_not.2 (wellTyped_of_holds hv)

theorem not_fails_schedule (hv : Holds v r) (hs : r.checkSchedule policy = .ok ()) : ¬Fails policy v .schedule := by
  rintro ⟨hpolicy, hset⟩
  refine hset ?_
  simpa only [isSet_iff hv] using checkSchedule_eq_ok.1 hs hpolicy

theorem not_fails_modulation (hm : Names v m) : ¬Fails policy v .modulation := fun h => h m hm

theorem datr_text_iff (hv : Holds v r) {word : String} :
    r.datr = .text word ↔ v.get? "datr" = some (.str word) := by
  rw [hv.datr, ofJson_eq_text]

theorem datr_number_iff (hv : Holds v r) : (∃ x, r.datr = .number x) ↔ Is (v.get? "datr") Json.IsNumber := by
  rw [is_number]
  refine exists_congr fun x => ?_
  rw [hv.datr, ofJson_eq_number]

theorem codr_text_iff (hv : Holds v r) {s : String} : LeftOutOr (v.get? "codr") (s = "") (.str s) ↔ r.codr = s := by
  rcases hv.codr with ⟨hnone, hempty⟩ | hgiven
  · simp [LeftOutOr, hnone, hempty, eq_comm]
  · simp [LeftOutOr, hgiven]

section Word

variable {word : String}

theorem not_fails_loraType (hdatr : v.get? "datr" = some (.str word)) : ¬Fails policy v (.datarateType .lora) :=
  fun h => h.2 word hdatr

theorem not_fails_format (hdatr : v.get? "datr" = some (.str word)) (hparse : Datarate.parse word ≠ .error .format) :
    ¬Fails policy v .datarateFormat := by
  rintro ⟨-, word', hdatr', hparse'⟩
  obtain rfl : word = word' := by simpa [hdatr] using hdatr'
  exact hparse hparse'

theorem not_fails_bandwidth (hdatr : v.get? "datr" = some (.str word))
    (hparse : ∀ khz, Datarate.parse word ≠ .error (.bandwidth khz)) : ¬Fails policy v .bandwidth := by
  rintro ⟨-, word', khz, hdatr', hparse'⟩
  obtain rfl : word = word' := by simpa [hdatr] using hdatr'
  exact hparse khz hparse'

end Word

theorem not_fails_codingRate (hv : Holds v r) {rate : CodingRate} (hcodr : r.codr ∈ rate.spellings) :
    ¬Fails policy v .codingRate := by
  rintro ⟨-, s, hs, hnone⟩
  obtain rfl := (codr_text_iff hv).1 hs
  exact hnone rate hcodr

theorem not_fails_of_modulation (hv : Holds v r) (hs : r.checkSchedule policy = .ok ()) {settings : TransmitModulation}
    (hm : r.modulation = .ok settings) (hc : c ≠ .payload) : ¬Fails policy v c := by
  rcases modulation_eq_ok.1 hm with ⟨s, rfl, hmodu, hlora⟩ | ⟨s, rfl, hmodu, hfsk⟩
  · have hname : Names v .lora := (names_iff hv).2 hmodu
    obtain ⟨⟨word, hdatr, hspells⟩, hcodr, -⟩ := lora_eq_ok.1 hlora
    have hparse : Datarate.parse word = .ok ⟨s.spreadingFactor, s.bandwidth⟩ := Datarate.parse_eq_ok_iff.2 hspells
    have hword := (datr_text_iff hv).1 hdatr
    cases c with
    | fields => exact not_fails_fields hv
    | schedule => exact not_fails_schedule hv hs
    | modulation => exact not_fails_modulation hname
    | datarateType m =>
      cases m with
      | lora => exact not_fails_loraType hword
      | fsk => exact not_fails_other hname rfl (by decide)
    | datarateFormat => exact not_fails_format hword (by simp [hparse])
    | bandwidth => exact not_fails_bandwidth hword (by simp [hparse])
    | codingRate => exact not_fails_codingRate hv hcodr
    | payload => exact absurd rfl hc
  · have hname : Names v .fsk := (names_iff hv).2 hmodu
    obtain ⟨x, hdatr, -⟩ := fsk_eq_ok.1 hfsk
    cases c with
    | fields => exact not_fails_fields hv
    | schedule => exact not_fails_schedule hv hs
    | modulation => exact not_fails_modulation hname
    | datarateType m =>
      cases m with
      | lora => exact not_fails_other hname rfl (by decide)
      | fsk => exact fun h => h.2 ((datr_number_iff hv).1 ⟨x, hdatr⟩)
    | datarateFormat | bandwidth | codingRate => exact not_fails_other hname rfl (by decide)
    | payload => exact absurd rfl hc

/-! ## The first check that fails -/

theorem failsFirst_of_loraRefused (hv : Holds v r) (hs : r.checkSchedule policy = .ok ()) (hname : Names v .lora)
    (h : LoraRefused r e) : FailsFirst policy v e.check := by
  have hfields : ¬Fails policy v .fields := not_fails_fields hv
  have hschedule : ¬Fails policy v .schedule := not_fails_schedule hv hs
  have hmodulation : ¬Fails policy v .modulation := not_fails_modulation hname
  cases h with
  | datarateType hdatr =>
    refine ⟨⟨hname, fun word hword => hdatr word ((datr_text_iff hv).2 hword)⟩, ?_⟩
    simp [DecodeError.check, Check.earlier, Check.order, hfields, hschedule, hmodulation]
  | datarateFormat hdatr hparse =>
    have hword := (datr_text_iff hv).1 hdatr
    have htype : ¬Fails policy v (.datarateType .lora) := not_fails_loraType hword
    refine ⟨⟨hname, _, hword, hparse⟩, ?_⟩
    simp [DecodeError.check, Check.earlier, Check.order, hfields, hschedule, hmodulation, htype]
  | unknownBandwidth hdatr hparse =>
    have hword := (datr_text_iff hv).1 hdatr
    have htype : ¬Fails policy v (.datarateType .lora) := not_fails_loraType hword
    have hformat : ¬Fails policy v .datarateFormat := not_fails_format hword (by simp [hparse])
    refine ⟨⟨hname, _, _, hword, hparse⟩, ?_⟩
    simp [DecodeError.check, Check.earlier, Check.order, hfields, hschedule, hmodulation, htype, hformat]
  | unknownCodingRate hdatr hparse hcodr =>
    have hword := (datr_text_iff hv).1 hdatr
    have htype : ¬Fails policy v (.datarateType .lora) := not_fails_loraType hword
    have hformat : ¬Fails policy v .datarateFormat := not_fails_format hword (by simp [hparse])
    have hbandwidth : ¬Fails policy v .bandwidth := not_fails_bandwidth hword (by simp [hparse])
    refine ⟨⟨hname, r.codr, (codr_text_iff hv).2 rfl, hcodr⟩, ?_⟩
    simp [DecodeError.check, Check.earlier, Check.order, hfields, hschedule, hmodulation, htype, hformat, hbandwidth]

/-- **Every way to refuse a request is that of its first check that fails.** -/
theorem failsFirst_of_refused (hv : Holds v r) (h : Request.Refused policy r e) : FailsFirst policy v e.check := by
  have hfields : ¬Fails policy v .fields := not_fails_fields hv
  cases h with
  | schedule hpolicy hset =>
    refine ⟨⟨hpolicy, ?_⟩, ?_⟩
    · simpa only [isSet_iff hv] using hset
    · simp [DecodeError.check, Check.earlier, Check.order, hfields]
  | unknownModulation hs hmodu =>
    refine ⟨fun m hm => hmodu m ((names_iff hv).1 hm), ?_⟩
    simp [DecodeError.check, Check.earlier, Check.order, hfields, not_fails_schedule hv hs]
  | lora hs hmodu h => exact failsFirst_of_loraRefused hv hs ((names_iff hv).2 hmodu) h
  | fsk hs hmodu hdatr =>
    have hname : Names v .fsk := (names_iff hv).2 hmodu
    have hlora : ∀ c : Check, c.modulation? = some .lora → ¬Fails policy v c :=
      fun c hc => not_fails_other hname hc (by decide)
    refine ⟨⟨hname, fun hnumber => ?_⟩, ?_⟩
    · obtain ⟨x, hx⟩ := (datr_number_iff hv).2 hnumber
      exact hdatr x hx
    · simpa [DecodeError.check, Check.earlier, Check.order, hfields, not_fails_schedule hv hs,
        not_fails_modulation hname] using ⟨hlora _ rfl, hlora _ rfl, hlora _ rfl, hlora _ rfl⟩
  | payload hs hm hdata =>
    refine ⟨fun bytes hbytes => ?_, fun c hc => not_fails_of_modulation hv hs hm (Check.ne_of_mem_earlier hc)⟩
    have hencoded : r.data = Base64.encode bytes := by simpa [hv.data] using hbytes
    rw [Base64.decode_eq_ok_iff.2 hencoded] at hdata
    cases hdata

theorem decode_eq_error (h : decode policy v = .error e) :
    (∃ fault, Request.ofJson v = .error fault ∧ e = .malformed fault) ∨
      ∃ r, Request.ofJson v = .ok r ∧ Request.Refused policy r e := by
  rcases Outcome.bind_eq_error.1 h with h | ⟨r, hr, h⟩
  · obtain ⟨fault, hfault, rfl⟩ := Outcome.mapError_eq_error.1 h
    exact Or.inl ⟨fault, hfault, rfl⟩
  · exact Or.inr ⟨r, Outcome.mapError_eq_ok.1 hr, decode_eq_error_iff.1 h⟩

theorem failsFirst_of_error (hnodup : (names ms).Nodup) (h : decode policy (.obj ms) = .error e) :
    FailsFirst policy (.obj ms) e.check := by
  rcases decode_eq_error h with ⟨fault, hfault, rfl⟩ | ⟨r, hr, h⟩
  · refine ⟨fun htyped => ?_, fun c hc => by cases hc⟩
    obtain ⟨r, hr⟩ := wellTyped_iff.1 htyped
    rw [(ofJson_object hnodup).2 hr] at hfault
    cases hfault
  · exact failsFirst_of_refused (holds_of_ofJson hr) h

theorem not_fails_of_ok {p : TransmitPacket} (h : decode policy (.obj ms) = .ok p) (c : Check) :
    ¬Fails policy (.obj ms) c := by
  obtain ⟨r, hr, hp⟩ := ofJson_of_decode h
  have hv := holds_of_ofJson hr
  obtain ⟨hschedule, m, bytes, hm, hdata, -⟩ := decode_eq_ok_iff.1 hp
  by_cases hc : c = .payload
  · subst hc
    exact fun h => h bytes (hdata ▸ hv.data)
  · exact not_fails_of_modulation hv (checkSchedule_eq_ok.2 hschedule) hm hc

/-- **The error of an object is that of its first check**, and of no other. -/
theorem decode_error_iff (hnodup : (names ms).Nodup) :
    (∃ e, decode policy (.obj ms) = .error e ∧ e.check = c) ↔ FailsFirst policy (.obj ms) c := by
  apply Iff.intro
  · intro h
    obtain ⟨e, he, rfl⟩ := h
    exact failsFirst_of_error hnodup he
  · intro h
    cases hd : decode policy (.obj ms) with
    | ok p => exact absurd h.1 (not_fails_of_ok hd c)
    | error e => exact ⟨e, rfl, (failsFirst_of_error hnodup hd).unique h⟩

/-- the datarate and what is no field do not matter to the types of the fields -/
theorem WellTyped.of_agreeBut {w : Json} (h : AgreeBut [.datr] v w) (hv : WellTyped v) : WellTyped w where
  imme := h .imme (by decide) ▸ hv.imme
  ncrc := h .ncrc (by decide) ▸ hv.ncrc
  ipol := h .ipol (by decide) ▸ hv.ipol
  tmst := h .tmst (by decide) ▸ hv.tmst
  tmms := h .tmms (by decide) ▸ hv.tmms
  freq := h .freq (by decide) ▸ hv.freq
  rfch := h .rfch (by decide) ▸ hv.rfch
  powe := h .powe (by decide) ▸ hv.powe
  prea := h .prea (by decide) ▸ hv.prea
  fdev := h .fdev (by decide) ▸ hv.fdev
  modu := h .modu (by decide) ▸ hv.modu
  data := h .data (by decide) ▸ hv.data
  codr := h .codr (by decide) ▸ hv.codr

theorem malformed_iff (hnodup : (names ms).Nodup) :
    (∃ fault, decode policy (.obj ms) = .error (.malformed fault)) ↔ ¬WellTyped (.obj ms) := by
  have hfirst : FailsFirst policy (.obj ms) .fields ↔ ¬WellTyped (.obj ms) := and_iff_left fun c hc => by cases hc
  rw [← hfirst, ← decode_error_iff hnodup]
  apply Iff.intro
  · intro h
    obtain ⟨fault, h⟩ := h
    exact ⟨_, h, rfl⟩
  · intro h
    obtain ⟨e, he, hcheck⟩ := h
    cases e with
    | malformed fault => exact ⟨fault, he⟩
    | schedule | unknownModulation | datarateType | datarateFormat | unknownBandwidth | unknownCodingRate | payload =>
      cases hcheck

/-- **The first check that fails is the error.** Whatever else is wrong, an object is refused for a check if and only
if this one fails and none before it. A datarate of any type, or keys that are no fields, do not make it malformed, and
an error that only one modulation has is given where this one is named. -/
theorem decode_fails_first (policy : SchedulePolicy) (ms : List (String × Json)) :
    (∀ c, (∃ e, decode policy (.ofMembers ms) = .error e ∧ e.check = c) ↔ FailsFirst policy (.ofMembers ms) c) ∧
    (∀ ms', AgreeBut [.datr] (.ofMembers ms) (.ofMembers ms') →
      ((∃ fault, decode policy (.ofMembers ms) = .error (.malformed fault)) ↔
        ∃ fault, decode policy (.ofMembers ms') = .error (.malformed fault))) ∧
    ∀ e m, decode policy (.ofMembers ms) = .error e → e.check.modulation? = some m → Names (.ofMembers ms) m := by
  have hnodup : ∀ ms, (names (sortMembers ms)).Nodup := fun ms => (sortMembers_sorted ms).nodup
  refine ⟨fun c => ?_, fun ms' h => ?_, fun e m he hm => ?_⟩
  · rw [ofMembers_eq]
    exact decode_error_iff (hnodup ms)
  · rw [ofMembers_eq, ofMembers_eq] at h ⊢
    rw [malformed_iff (hnodup ms), malformed_iff (hnodup ms')]
    exact not_congr ⟨WellTyped.of_agreeBut h, WellTyped.of_agreeBut fun k hk => (h k hk).symm⟩
  · rw [ofMembers_eq] at he ⊢
    exact names_of_fails hm (failsFirst_of_error (hnodup ms) he).1

/-- a LoRa request whose bandwidth, coding rate and payload are wrong, and which has no scheduling field -/
def severalFaults : List (String × Json) :=
  [("codr", .str "9/9"), ("data", .str "!"), ("datr", .str "SF7BW999"), ("freq", .int 868), ("modu", .str "LORA"),
    ("rfch", .int 0)]

/-- its faults come to light one after the other; a field out of range goes before all of them, whatever the datarate -/
theorem severalFaults_ordered :
    FailsFirst .exclusive (.ofMembers severalFaults) .schedule ∧
    FailsFirst .precedence (.ofMembers severalFaults) .bandwidth ∧ Names (.ofMembers severalFaults) .lora ∧
    ∃ fault, decode .exclusive
        (.ofMembers (severalFaults ++ [("powe", .int 256)] ++ [("datr", .null), ("brd", .null)])) =
      .error (.malformed fault) := by
  have hexclusive : decode .exclusive (.ofMembers severalFaults) = .error (.schedule []) := by rfl
  have hprecedence : decode .precedence (.ofMembers severalFaults) = .error (.unknownBandwidth "SF7BW999" 999) := by rfl
  have hmalformed : decode .exclusive (.ofMembers (severalFaults ++ [("powe", .int 256)])) =
      .error (.malformed (.wrongValue (.int 256) "u8")) := by rfl
  refine ⟨?_, ?_, ?_, ?_⟩
  · exact ((decode_fails_first .exclusive severalFaults).1 .schedule).1 ⟨_, hexclusive, rfl⟩
  · exact ((decode_fails_first .precedence severalFaults).1 .bandwidth).1 ⟨_, hprecedence, rfl⟩
  · exact (decode_fails_first .precedence severalFaults).2.2 _ .lora hprecedence rfl
  · refine ((decode_fails_first .exclusive _).2.1 _ (agreeBut_append fun k => ?_)).1 ⟨_, hmalformed⟩
    cases k <;> decide

end Downlink

end PacketForwarder
