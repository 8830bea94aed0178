/-
The checks of a request. Each stage of decoding succeeds exactly if what it looks at is in order: the scheduling fields
under the policy, the datarate and the coding rate of the modulation that is named, and the payload. A request is
decoded if all of them do, and then the packet is its fields with what the checks have made of them
(`decode_eq_ok_iff`).
-/
import PacketForwarder.Downlink.Decode
import PacketForwarder.Proofs.Modulation.Datarate
import PacketForwarder.Proofs.Outcome
import PacketForwarder.Proofs.Text.Base64

namespace PacketForwarder

namespace Request

variable {r : Request} {policy : SchedulePolicy} {p : TransmitPacket}

theorem mem_scheduleFields {f : ScheduleField} : f ∈ r.scheduleFields ↔ r.isSet f = true := by
  unfold scheduleFields
  rw [List.mem_filter, and_iff_right_iff_imp]
  intro _
  cases f <;> simp

theorem length_scheduleFields : r.scheduleFields.length = 1 ↔ ∃! f, r.isSet f = true := by
  have hnodup : r.scheduleFields.Nodup := List.Nodup.filter _ (by decide)
  apply Iff.intro
  · intro h
    obtain ⟨f, hf⟩ := List.length_eq_one_iff.1 h
    have hmem : ∀ g, r.isSet g = true ↔ g = f := by
      intro g
      rw [← mem_scheduleFields, hf, List.mem_singleton]
    exact ⟨f, (hmem f).2 rfl, fun g hg => (hmem g).1 hg⟩
  · intro h
    obtain ⟨f, hf, hunique⟩ := h
    have hperm : r.scheduleFields.Perm [f] := by
      refine (List.perm_ext_iff_of_nodup hnodup (List.nodup_singleton f)).2 fun g => ?_
      rw [mem_scheduleFields, List.mem_singleton]
      exact ⟨hunique g, fun hg => hg ▸ hf⟩
    exact hperm.length_eq

theorem checkSchedule_eq_ok :
    r.checkSchedule policy = .ok () ↔ (policy = .exclusive → ∃! f, r.isSet f = true) := by
  unfold checkSchedule
  split_ifs with h
  · refine iff_of_false nofun fun hset => ?_
    exact h.2 (length_scheduleFields.2 (hset h.1))
  · refine iff_of_true rfl fun hpolicy => ?_
    exact length_scheduleFields.1 (not_not.1 fun hlen => h ⟨hpolicy, hlen⟩)

theorem lora_eq_ok {s : LoraTransmit} : r.lora = .ok s ↔
    (∃ word, r.datr = .text word ∧ Datarate.Spells word s.spreadingFactor.toNat s.bandwidth) ∧
      r.codr ∈ s.codingRate.spellings ∧ r.ipol = s.invertPolarity := by
  unfold lora
  apply Iff.intro
  · intro h
    split at h
    · rename_i word hdatr
      split at h
      · cases h
      · cases h
      · rename_i datarate hparse
        split at h
        · cases h
        · rename_i codingRate hcodr
          cases h
          exact ⟨⟨word, hdatr, Datarate.parse_eq_ok_iff.1 hparse⟩, CodingRate.ofSpelling?_eq_some.1 hcodr, rfl⟩
    · cases h
  · intro h
    obtain ⟨⟨word, hdatr, hspells⟩, hcodr, hipol⟩ := h
    have hparse : Datarate.parse word = .ok ⟨s.spreadingFactor, s.bandwidth⟩ := Datarate.parse_eq_ok_iff.2 hspells
    have hrate := CodingRate.ofSpelling?_eq_some.2 hcodr
    simp only [hdatr, hparse, hrate, hipol]

theorem fsk_eq_ok {s : FskTransmit} : r.fsk = .ok s ↔
    ∃ x, r.datr = .number x ∧ s.bitrate = .ofNat (x.clamp maxBitrate) ∧ s.deviationKhz = Deviation.ofHertz r.fdev := by
  unfold fsk
  apply Iff.intro
  · intro h
    split at h
    · rename_i x hdatr
      cases h
      exact ⟨x, hdatr, rfl, rfl⟩
    · cases h
  · intro h
    obtain ⟨x, hdatr, hbitrate, hdeviation⟩ := h
    simp only [hdatr, ← hbitrate, ← hdeviation]

theorem modulation_eq_ok {m : TransmitModulation} : r.modulation = .ok m ↔
    (∃ s, m = .lora s ∧ r.modu = "LORA" ∧ r.lora = .ok s) ∨ ∃ s, m = .fsk s ∧ r.modu = "FSK" ∧ r.fsk = .ok s := by
  unfold modulation
  apply Iff.intro
  · intro h
    split at h
    · rename_i hmodu
      obtain ⟨s, hs, rfl⟩ := Outcome.map_eq_ok.1 h
      exact Or.inl ⟨s, rfl, Modulation.ofWireName?_eq_some.1 hmodu, hs⟩
    · rename_i hmodu
      obtain ⟨s, hs, rfl⟩ := Outcome.map_eq_ok.1 h
      exact Or.inr ⟨s, rfl, Modulation.ofWireName?_eq_some.1 hmodu, hs⟩
    · cases h
  · intro h
    rcases h with ⟨s, rfl, hmodu, hs⟩ | ⟨s, rfl, hmodu, hs⟩
    · have hname : Modulation.ofWireName? r.modu = some .lora := Modulation.ofWireName?_eq_some.2 hmodu
      rw [hname, hs]
      rfl
    · have hname : Modulation.ofWireName? r.modu = some .fsk := Modulation.ofWireName?_eq_some.2 hmodu
      rw [hname, hs]
      rfl

/-- the packet of a request, given what its checks have made of the modulation and the payload -/
def packet (r : Request) (modulation : TransmitModulation) (payload : List UInt8) : TransmitPacket where
  immediate := r.imme
  counter := r.tmst.getD 0
  gpsTime := r.tmms
  frequency := Frequency.ofMegahertz r.freq
  power := r.powe
  rfChain := r.rfch
  noCrc := r.ncrc
  preambleLength := r.prea
  modulation
  payload

/-- **A request is decoded if all its checks succeed.** -/
theorem decode_eq_ok_iff : r.decode policy = .ok p ↔ (policy = .exclusive → ∃! f, r.isSet f = true) ∧
    ∃ m bytes, r.modulation = .ok m ∧ r.data = Base64.encode bytes ∧ p = r.packet m bytes := by
  have hpayload : ∀ {bytes}, r.payload = .ok bytes ↔ r.data = Base64.encode bytes := by
    intro bytes
    unfold payload
    rw [Outcome.mapError_eq_ok, Base64.decode_eq_ok_iff]
  unfold decode
  rw [Outcome.bind_eq_ok, ← checkSchedule_eq_ok]
  apply Iff.intro
  · intro h
    obtain ⟨_, hschedule, h⟩ := h
    obtain ⟨m, hm, h⟩ := Outcome.bind_eq_ok.1 h
    obtain ⟨bytes, hbytes, h⟩ := Outcome.bind_eq_ok.1 h
    exact ⟨hschedule, m, bytes, hm, hpayload.1 hbytes, (Except.ok.inj h).symm⟩
  · intro h
    obtain ⟨hschedule, m, bytes, hm, hbytes, rfl⟩ := h
    refine ⟨(), hschedule, ?_⟩
    rw [hm, hpayload.2 hbytes]
    rfl

end Request

end PacketForwarder
