/-
GPS times as instants. A GPS time counts milliseconds from 1980; its instant is that count and the seconds from 1970 to
1980, together. The seconds go through signed words of 64 bits, the nanoseconds through a word of 32 bits, and each step
holds its number for every time of 64 bits (`InWords`). The calendar is the only limit.

Results:
- `gpsInstant_exact`: a packet with a GPS time has an instant exactly if the calendar reaches its second, and then it is
  the exact sum, within its second. The schedule does not ask whether there is one. Of two times that have instants the
  earlier has the earlier instant, and equal instants come from equal times.
- `lastGpsTime_exact`: the last millisecond that has an instant, and the one after it.
-/
import Mathlib.Tactic
import PacketForwarder.Radio.Sample

namespace PacketForwarder

def Instant.sinceEpoch (t : Instant) : Int := t.seconds * 10 ^ 9 + t.nanos

theorem Instant.valid_iff {seconds : Int} {nanos : Nat} : Valid seconds nanos ↔
    -8334601228800 ≤ seconds ∧ seconds ≤ 8210266876799 ∧ nanos < 2 * 10 ^ 9 := Iff.rfl

namespace TransmitPacket

variable {p : TransmitPacket} {millis millis' : UInt64} {t t' : Instant} {n : Int}

/-! ## Words -/

theorem secondsWord?_eq_some (hlow : -2 ^ 63 ≤ n) (hhigh : n < 2 ^ 63) : secondsWord? n = some n :=
  if_pos ⟨hlow, hhigh⟩

/-- **No step of the conversion leaves its word**: not the count of seconds, not its sum with the epoch, and not the
product that gives the nanoseconds. -/
structure InWords (millis : UInt64) : Prop where
  count : secondsWord? (millis / 1000).toNat = some ((millis.toNat / 1000 : Nat) : Int)
  sum : gpsSeconds? millis = some ((millis.toNat / 1000 : Nat) + gpsEpoch)
  product : (gpsNanos millis).toNat = millis.toNat % 1000 * 1000000

theorem inWords (millis : UInt64) : InWords millis := by
  have hlt := millis.toNat_lt
  have hquotient : (millis / 1000).toNat = millis.toNat / 1000 := UInt64.toNat_div millis 1000
  have hcount : secondsWord? (millis / 1000).toNat = some ((millis.toNat / 1000 : Nat) : Int) := by
    rw [hquotient]
    exact secondsWord?_eq_some (by omega) (by omega)
  refine ⟨hcount, ?_, ?_⟩
  · rw [gpsSeconds?, hcount, Option.bind_eq_bind, Option.bind_some]
    unfold gpsEpoch
    exact secondsWord?_eq_some (by omega) (by omega)
  · have hrest : (millis % 1000).toUInt32.toNat = millis.toNat % 1000 := by
      rw [UInt64.toNat_toUInt32, UInt64.toNat_mod]
      exact Nat.mod_eq_of_lt ((Nat.mod_lt _ (by decide)).trans (by decide))
    have hproduct : millis.toNat % 1000 * 1000000 < 2 ^ 32 := by omega
    rw [gpsNanos, UInt32.toNat_mul, hrest]
    exact Nat.mod_eq_of_lt hproduct

/-! ## Instants -/

theorem valid_gps (n : Nat) : Instant.Valid ((n / 1000 : Nat) + gpsEpoch) (n % 1000 * 1000000) ↔
    n / 1000 + 315964800 ≤ 8210266876799 := by
  rw [Instant.valid_iff, gpsEpoch]
  omega

theorem instantOfGps?_eq_some : instantOfGps? millis = some t ↔
    millis.toNat / 1000 + 315964800 ≤ 8210266876799 ∧
      t.seconds = (millis.toNat / 1000 : Nat) + gpsEpoch ∧ t.nanos = millis.toNat % 1000 * 1000000 := by
  obtain ⟨-, hsum, hproduct⟩ := inWords millis
  have hparts : instantOfGps? millis =
      Instant.ofParts? ((millis.toNat / 1000 : Nat) + gpsEpoch) (millis.toNat % 1000 * 1000000) := by
    rw [instantOfGps?, hsum, hproduct, Option.bind_eq_bind, Option.bind_some]
  have hsecond : millis.toNat % 1000 * 1000000 < Instant.nanosPerSecond := by
    unfold Instant.nanosPerSecond
    omega
  rw [hparts, Instant.ofParts?]
  split_ifs with h
  · rw [and_iff_right ((valid_gps _).1 h.1), Option.some.injEq]
    apply Iff.intro
    · rintro rfl
      exact ⟨rfl, rfl⟩
    · rintro ⟨hseconds, hnanos⟩
      obtain ⟨seconds, nanos, valid⟩ := t
      subst hseconds hnanos
      rfl
  · exact iff_of_false nofun fun hmillis => h ⟨(valid_gps _).2 hmillis.1, Or.inl hsecond⟩

theorem exists_instantOfGps? :
    (∃ t, instantOfGps? millis = some t) ↔ millis.toNat / 1000 + 315964800 ≤ 8210266876799 := by
  apply Iff.intro
  · rintro ⟨t, ht⟩
    exact (instantOfGps?_eq_some.1 ht).1
  · intro h
    exact ⟨⟨_, _, (valid_gps _).2 h⟩, instantOfGps?_eq_some.2 ⟨h, rfl, rfl⟩⟩

/-- **The instant is the sum of the time and the epoch**, and in the second of the time. -/
theorem sinceEpoch_of_gps (h : instantOfGps? millis = some t) :
    t.sinceEpoch = (millis.toNat + 315964800000) * 10 ^ 6 ∧ t.nanos < 10 ^ 9 := by
  obtain ⟨-, hseconds, hnanos⟩ := instantOfGps?_eq_some.1 h
  rw [Instant.sinceEpoch, hseconds, hnanos, gpsEpoch]
  omega

theorem sinceEpoch_lt_iff (h : instantOfGps? millis = some t) (h' : instantOfGps? millis' = some t') :
    millis < millis' ↔ t.sinceEpoch < t'.sinceEpoch := by
  rw [UInt64.lt_iff_toNat_lt, (sinceEpoch_of_gps h).1, (sinceEpoch_of_gps h').1]
  omega

theorem instantOfGps?_inj (h : instantOfGps? millis = some t) (h' : instantOfGps? millis' = some t') :
    t = t' ↔ millis = millis' := by
  apply Iff.intro
  · rintro rfl
    have hsum := (sinceEpoch_of_gps h).1
    have hsum' := (sinceEpoch_of_gps h').1
    exact UInt64.toNat_inj.1 (by omega)
  · rintro rfl
    exact Option.some.inj (h.symm.trans h')

/-! ## Packets -/

theorem gpsInstant?_eq (h : p.gpsTime = some millis) : p.gpsInstant? = instantOfGps? millis := by
  rw [gpsInstant?, h, Option.bind_some]

/-- **A GPS time has its exact instant**, up to the last second of the calendar; what is beyond has none and is
scheduled all the same. The order of the times is that of their instants. -/
theorem gpsInstant_exact (h : p.gpsTime = some millis) :
    InWords millis ∧
    ((∃ t, p.gpsInstant? = some t) ↔ millis.toNat / 1000 + 315964800 ≤ 8210266876799) ∧
    (∀ t, p.gpsInstant? = some t →
      t.sinceEpoch = (millis.toNat + 315964800000) * 10 ^ 6 ∧ t.nanos < 10 ^ 9) ∧
    p.schedule = (if p.immediate then .immediate else .gps millis) ∧
    ∀ (q : TransmitPacket) (millis' : UInt64) (t t' : Instant), q.gpsTime = some millis' →
      p.gpsInstant? = some t → q.gpsInstant? = some t' →
        (millis < millis' ↔ t.sinceEpoch < t'.sinceEpoch) ∧ (t = t' ↔ millis = millis') := by
  rw [gpsInstant?_eq h]
  refine ⟨inWords millis, exists_instantOfGps?, fun t ht => sinceEpoch_of_gps ht, ?_, ?_⟩
  · rw [schedule, h]
  · intro q millis' t t' h' ht ht'
    rw [gpsInstant?_eq h'] at ht'
    exact ⟨sinceEpoch_lt_iff ht ht', instantOfGps?_inj ht ht'⟩

def lastGpsPacket : TransmitPacket := { sample with gpsTime := some 8209950911999999 }

def overdueGpsPacket : TransmitPacket := { sample with gpsTime := some 8209950912000000 }

/-- the last millisecond has its instant, and the next one none -/
theorem lastGpsTime_exact :
    lastGpsPacket.gpsTime = some 8209950911999999 ∧
    (∃ t, lastGpsPacket.gpsInstant? = some t ∧ t.sinceEpoch = 8210266876799999000000) ∧
    (¬∃ t, overdueGpsPacket.gpsInstant? = some t) ∧ overdueGpsPacket.schedule = .gps 8209950912000000 := by
  obtain ⟨-, hreached, hsum, -⟩ := gpsInstant_exact (p := lastGpsPacket) rfl
  obtain ⟨-, hunreached, -, hschedule, -⟩ := gpsInstant_exact (p := overdueGpsPacket) rfl
  obtain ⟨t, ht⟩ := hreached.2 (by decide)
  exact ⟨rfl, ⟨t, ht, (hsum t ht).1⟩, fun h => absurd (hunreached.1 h) (by decide), hschedule⟩

end TransmitPacket

end PacketForwarder
