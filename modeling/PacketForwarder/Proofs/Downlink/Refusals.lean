/-
How a request is refused. `Request.Refused` has one constructor for each place where a check may fail; what is checked
before it is in order, and the error is made of the fields of the request. A request is refused with an error exactly
in these ways (`decode_eq_error_iff`), so what all errors have in common is shown by cases.
-/
import PacketForwarder.Proofs.Downlink.Checks

namespace PacketForwarder

theorem Modulation.ofWireName?_eq_none {s : String} : ofWireName? s = none ↔ ∀ m : Modulation, s ≠ m.wireName := by
  rw [Option.eq_none_iff_forall_ne_some]
  exact forall_congr' fun m => not_congr ofWireName?_eq_some

theorem CodingRate.ofSpelling?_eq_none {s : String} : ofSpelling? s = none ↔ ∀ c : CodingRate, s ∉ c.spellings := by
  rw [Option.eq_none_iff_forall_ne_some]
  exact forall_congr' fun c => not_congr ofSpelling?_eq_some

namespace Request

variable {r : Request} {policy : SchedulePolicy} {e : DecodeError}

/-! ## Settings -/

/-- LoRa settings are refused: first for the type of the datarate, then for its word, then for the coding rate -/
inductive LoraRefused (r : Request) : DecodeError → Prop where
  | datarateType (hdatr : ∀ word, r.datr ≠ .text word) : LoraRefused r (.datarateType .lora r.datr.toJson)
  | datarateFormat {word : String} (hdatr : r.datr = .text word) (hparse : Datarate.parse word = .error .format) :
    LoraRefused r (.datarateFormat word)
  | unknownBandwidth {word : String} {khz : Nat} (hdatr : r.datr = .text word)
    (hparse : Datarate.parse word = .error (.bandwidth khz)) : LoraRefused r (.unknownBandwidth word khz)
  | unknownCodingRate {word : String} {d : Datarate} (hdatr : r.datr = .text word)
    (hparse : Datarate.parse word = .ok d) (hcodr : ∀ c : CodingRate, r.codr ∉ c.spellings) :
    LoraRefused r (.unknownCodingRate r.codr)

theorem lora_eq_error : r.lora = .error e ↔ LoraRefused r e := by
  unfold lora
  apply Iff.intro
  · intro h
    split at h
    · rename_i word hdatr
      split at h
      · rename_i hparse
        cases h
        exact .datarateFormat hdatr hparse
      · rename_i khz hparse
        cases h
        exact .unknownBandwidth hdatr hparse
      · rename_i d hparse
        split at h
        · rename_i hcodr
          cases h
          exact .unknownCodingRate hdatr hparse (CodingRate.ofSpelling?_eq_none.1 hcodr)
        · cases h
    · rename_i hdatr
      cases h
      exact .datarateType fun word hword => hdatr word hword
  · intro h
    cases h with
    | datarateType hdatr =>
      split
      · rename_i word hword
        exact absurd hword (hdatr word)
      · rfl
    | datarateFormat hdatr hparse => simp only [hdatr, hparse]
    | unknownBandwidth hdatr hparse => simp only [hdatr, hparse]
    | unknownCodingRate hdatr hparse hcodr => simp only [hdatr, hparse, CodingRate.ofSpelling?_eq_none.2 hcodr]

/-- FSK settings are refused for the type of the datarate alone -/
theorem fsk_eq_error : r.fsk = .error e ↔ (∀ x, r.datr ≠ .number x) ∧ e = .datarateType .fsk r.datr.toJson := by
  unfold fsk
  split
  · rename_i x hdatr
    exact iff_of_false nofun fun h => h.1 x hdatr
  · rename_i hdatr
    apply Iff.intro
    · intro h
      cases h
      exact ⟨fun x hx => hdatr x hx, rfl⟩
    · intro h
      rw [h.2]

/-! ## Requests -/

/-- **The ways to refuse a request.** -/
inductive Refused (policy : SchedulePolicy) (r : Request) : DecodeError → Prop where
  | schedule (hpolicy : policy = .exclusive) (hset : ¬∃! f, r.isSet f = true) :
    Refused policy r (.schedule r.scheduleFields)
  | unknownModulation (hschedule : r.checkSchedule policy = .ok ()) (hmodu : ∀ m : Modulation, r.modu ≠ m.wireName) :
    Refused policy r (.unknownModulation r.modu)
  | lora {e : DecodeError} (hschedule : r.checkSchedule policy = .ok ()) (hmodu : r.modu = Modulation.lora.wireName)
    (h : LoraRefused r e) : Refused policy r e
  | fsk (hschedule : r.checkSchedule policy = .ok ()) (hmodu : r.modu = Modulation.fsk.wireName)
    (hdatr : ∀ x, r.datr ≠ .number x) : Refused policy r (.datarateType .fsk r.datr.toJson)
  | payload {m : TransmitModulation} {fault : Base64.Fault} (hschedule : r.checkSchedule policy = .ok ())
    (hm : r.modulation = .ok m) (hdata : Base64.decode r.data.toUTF8.toList = .error fault) :
    Refused policy r (.payload r.data fault)

theorem checkSchedule_eq_error : r.checkSchedule policy = .error e ↔
    policy = .exclusive ∧ (¬∃! f, r.isSet f = true) ∧ e = .schedule r.scheduleFields := by
  unfold checkSchedule
  rw [← length_scheduleFields]
  split_ifs with h
  · apply Iff.intro
    · intro he
      cases he
      exact ⟨h.1, h.2, rfl⟩
    · intro he
      rw [he.2.2]
  · exact iff_of_false nofun fun he => h ⟨he.1, he.2.1⟩

theorem modulation_eq_error : r.modulation = .error e ↔
    ((∀ m : Modulation, r.modu ≠ m.wireName) ∧ e = .unknownModulation r.modu) ∨
    (r.modu = Modulation.lora.wireName ∧ r.lora = .error e) ∨
    (r.modu = Modulation.fsk.wireName ∧ r.fsk = .error e) := by
  unfold modulation
  apply Iff.intro
  · intro h
    split at h
    · rename_i hmodu
      exact Or.inr (Or.inl ⟨Modulation.ofWireName?_eq_some.1 hmodu, Outcome.map_eq_error.1 h⟩)
    · rename_i hmodu
      exact Or.inr (Or.inr ⟨Modulation.ofWireName?_eq_some.1 hmodu, Outcome.map_eq_error.1 h⟩)
    · rename_i hmodu
      cases h
      exact Or.inl ⟨Modulation.ofWireName?_eq_none.1 hmodu, rfl⟩
  · intro h
    rcases h with ⟨hmodu, rfl⟩ | ⟨hmodu, h⟩ | ⟨hmodu, h⟩
    · simp only [Modulation.ofWireName?_eq_none.2 hmodu]
    · simp only [Modulation.ofWireName?_eq_some.2 hmodu, h, Outcome.map_error]
    · simp only [Modulation.ofWireName?_eq_some.2 hmodu, h, Outcome.map_error]

theorem payload_eq_error : r.payload = .error e ↔
    ∃ fault, Base64.decode r.data.toUTF8.toList = .error fault ∧ e = .payload r.data fault := by
  unfold payload
  rw [Outcome.mapError_eq_error]
  simp only [eq_comm]

/-- **A request is refused in these ways and in no others.** -/
theorem decode_eq_error_iff : r.decode policy = .error e ↔ Refused policy r e := by
  have hstages : r.decode policy = .error e ↔ r.checkSchedule policy = .error e ∨ r.checkSchedule policy = .ok () ∧
      (r.modulation = .error e ∨ ∃ m, r.modulation = .ok m ∧ r.payload = .error e) := by
    simp [decode, Outcome.bind_eq_error, Unique.exists_iff]
  rw [hstages]
  apply Iff.intro
  · intro h
    rcases h with h | ⟨hschedule, h | ⟨m, hm, h⟩⟩
    · obtain ⟨hpolicy, hset, rfl⟩ := checkSchedule_eq_error.1 h
      exact .schedule hpolicy hset
    · rcases modulation_eq_error.1 h with ⟨hmodu, rfl⟩ | ⟨hmodu, h⟩ | ⟨hmodu, h⟩
      · exact .unknownModulation hschedule hmodu
      · exact .lora hschedule hmodu (lora_eq_error.1 h)
      · obtain ⟨hdatr, rfl⟩ := fsk_eq_error.1 h
        exact .fsk hschedule hmodu hdatr
    · obtain ⟨fault, hdata, rfl⟩ := payload_eq_error.1 h
      exact .payload hschedule hm hdata
  · intro h
    cases h with
    | schedule hpolicy hset => exact Or.inl (checkSchedule_eq_error.2 ⟨hpolicy, hset, rfl⟩)
    | unknownModulation hschedule hmodu =>
      exact Or.inr ⟨hschedule, Or.inl (modulation_eq_error.2 (Or.inl ⟨hmodu, rfl⟩))⟩
    | lora hschedule hmodu h =>
      exact Or.inr ⟨hschedule, Or.inl (modulation_eq_error.2 (Or.inr (Or.inl ⟨hmodu, lora_eq_error.2 h⟩)))⟩
    | fsk hschedule hmodu hdatr =>
      have h := fsk_eq_error.2 ⟨hdatr, rfl⟩
      exact Or.inr ⟨hschedule, Or.inl (modulation_eq_error.2 (Or.inr (Or.inr ⟨hmodu, h⟩)))⟩
    | payload hschedule hm hdata =>
      exact Or.inr ⟨hschedule, Or.inr ⟨_, hm, payload_eq_error.2 ⟨_, hdata, rfl⟩⟩⟩

end Request

end PacketForwarder
