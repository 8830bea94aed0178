/-
When a packet is sent, under either policy. Three fields of a request say when: at once, at a count, or at a GPS time.
`fieldsSet` lists those that are set on the wire; the exclusive policy asks for exactly one, and the policy of
precedence takes the first in an order of its own (`leadingField`). A packet has lost which of its fields were given,
and `TransmitPacket.schedule` still finds the one that counts.

Results:
- `policies_consistent`: where one field is set both policies give the same answer; otherwise the exclusive one refuses
  the request with the list of the fields, whatever else is wrong with it. So what is accepted under it is accepted
  unchanged under precedence. The schedule of a packet is what its one field asks for, or its leading field.
- `counterZero_scheduled`: a count of zero is a field that is set, and two fields are refused by one policy alone.

The way there: the fields set on the wire are those of the request (`scheduleFields_eq`), and only the first check of a
request depends on the policy (`decode_exclusive`).
-/
import PacketForwarder.Proofs.Downlink.Acceptance
import PacketForwarder.Proofs.Downlink.NonObjects

namespace PacketForwarder

open Json Request

/-! ## The policy -/

namespace Request

variable {r : Request} {m : TransmitModulation} {bytes : List UInt8}

theorem checkSchedule_precedence (r : Request) : r.checkSchedule .precedence = .ok () :=
  checkSchedule_eq_ok.2 nofun

/-- the policy is asked about nothing but the scheduling fields -/
theorem decode_eq_check (policy : SchedulePolicy) (r : Request) :
    r.decode policy = (do r.checkSchedule policy; r.decode .precedence) := by
  unfold decode
  rw [checkSchedule_precedence]
  rfl

/-- **A request with one scheduling field is decoded under both policies alike**; any other is refused under the
exclusive one before anything else is looked at. -/
theorem decode_exclusive (r : Request) : r.decode .exclusive =
    if r.scheduleFields.length = 1 then r.decode .precedence else .error (.schedule r.scheduleFields) := by
  rw [decode_eq_check, checkSchedule]
  by_cases h : r.scheduleFields.length = 1
  · rw [if_neg fun hc => hc.2 h, if_pos h]
    rfl
  · rw [if_pos ⟨rfl, h⟩, if_neg h]
    rfl

end Request

namespace Downlink

variable {v : Json} {r : Request} {policy : SchedulePolicy} {p : TransmitPacket}

theorem decode_of_ofJson (h : Request.ofJson v = .ok r) : decode policy v = r.decode policy := by
  unfold decode
  rw [h]
  rfl

theorem ofJson_of_decode (h : decode policy v = .ok p) : ∃ r, Request.ofJson v = .ok r ∧ r.decode policy = .ok p := by
  obtain ⟨r, hr, hp⟩ := Outcome.bind_eq_ok.1 h
  exact ⟨r, Outcome.mapError_eq_ok.1 hr, hp⟩

/-! ## Fields on the wire -/

instance decidableIsNull (v : Json) : Decidable (v = .null) :=
  match v with
  | .null => isTrue rfl
  | .bool _ | .int _ | .float _ | .str _ | .arr _ | .obj _ => isFalse nofun

instance decidableIsTrue (v : Json) : Decidable (v = .bool true) :=
  match v with
  | .bool true => isTrue rfl
  | .null | .bool false | .int _ | .float _ | .str _ | .arr _ | .obj _ => isFalse nofun

instance (v : Json) (f : ScheduleField) : Decidable (Sets v f) :=
  match f with
  | .imme => decidable_of_iff (∃ x ∈ v.get? "imme", x = .bool true) (by simp [Sets])
  | .tmst => inferInstanceAs (Decidable (∃ x ∈ v.get? "tmst", x ≠ .null))
  | .tmms => inferInstanceAs (Decidable (∃ x ∈ v.get? "tmms", x ≠ .null))

/-- the scheduling fields that are set on the wire, in their order -/
def fieldsSet (v : Json) : List ScheduleField := [.imme, .tmst, .tmms].filter fun f => Sets v f

/-- the field that counts where several are set -/
def leadingField (v : Json) : Option ScheduleField := [.imme, .tmms, .tmst].find? fun f => Sets v f

/-- what a field asks for, with the number of the wire -/
def Asks (v : Json) : ScheduleField → Schedule → Prop
  | .imme, s => v.get? "imme" = some (.bool true) ∧ s = .immediate
  | .tmst, s => ∃ c : UInt32, v.get? "tmst" = some (.int c.toNat) ∧ s = .counter c
  | .tmms, s => ∃ t : UInt64, v.get? "tmms" = some (.int t.toNat) ∧ s = .gps t

theorem scheduleFields_eq (h : Holds v r) : r.scheduleFields = fieldsSet v := by
  refine List.filter_congr fun f _ => ?_
  rw [Bool.eq_iff_iff, isSet_iff h f, decide_eq_true_iff]

/-! ## The schedule of a packet -/

theorem given_of_maybeWord {given : Option Json} {α : Type} {o : Option α} {toNat : α → Nat}
    (h : MaybeWord given (o.map toNat)) {x : α} (hx : o = some x) : given = some (.int (toNat x)) := by
  subst hx
  rcases h with ⟨hnone, -⟩ | ⟨n, hn, hgiven⟩
  · cases hnone
  · rw [hgiven, ← Option.some.inj hn]

theorem leadingField_eq (h : Holds v r) : leadingField v =
    if r.imme then some .imme
    else if r.tmms.isSome then some .tmms
    else if r.tmst.isSome then some .tmst
    else none := by
  have hfind : leadingField v = [ScheduleField.imme, .tmms, .tmst].find? r.isSet := by
    unfold leadingField
    congr 1
    funext f
    rw [Bool.eq_iff_iff, isSet_iff h f, decide_eq_true_iff]
  rw [hfind, List.find?_cons, List.find?_cons, List.find?_cons, List.find?_nil]
  unfold isSet
  cases r.imme <;> cases r.tmms.isSome <;> cases r.tmst.isSome <;> rfl

/-- **The schedule of a packet is what its leading field asks for**, and a count of zero where none is set. -/
theorem schedule_asks {m : TransmitModulation} {bytes : List UInt8} (h : Holds v r) :
    (∀ f, leadingField v = some f → Asks v f (r.packet m bytes).schedule) ∧
    (leadingField v = none → (r.packet m bytes).schedule = .counter 0) := by
  have hschedule : (r.packet m bytes).schedule =
      if r.imme then .immediate else r.tmms.elim (.counter (r.tmst.getD 0)) .gps := by
    unfold TransmitPacket.schedule packet
    cases r.tmms <;> rfl
  rw [leadingField_eq h, hschedule]
  cases himme : r.imme with
  | true =>
    refine ⟨fun f hf => ?_, nofun⟩
    obtain rfl := Option.some.inj hf
    exact ⟨(isSet_iff h .imme).1 himme, rfl⟩
  | false =>
    cases htmms : r.tmms with
    | some t =>
      refine ⟨fun f hf => ?_, nofun⟩
      obtain rfl := Option.some.inj hf
      exact ⟨t, given_of_maybeWord h.tmms htmms, rfl⟩
    | none =>
      cases htmst : r.tmst with
      | some c =>
        refine ⟨fun f hf => ?_, nofun⟩
        obtain rfl := Option.some.inj hf
        exact ⟨c, given_of_maybeWord h.tmst htmst, rfl⟩
      | none => exact ⟨nofun, fun _ => rfl⟩

theorem leadingField_of_fieldsSet {f : ScheduleField} (h : fieldsSet v = [f]) : leadingField v = some f := by
  have hset : ∀ g, Sets v g ↔ g = f := by
    intro g
    have hmem : g ∈ fieldsSet v ↔ Sets v g := by
      unfold fieldsSet
      rw [List.mem_filter, decide_eq_true_iff, and_iff_right_iff_imp]
      intro _
      cases g <;> simp
    rw [← hmem, h, List.mem_singleton]
  unfold leadingField
  simp only [hset]
  cases f <;> rfl

/-! ## Both policies -/

/-- **The policies are consistent.** The fields are those of the object behind the value: a request with one of them is
decoded under both policies alike, and any other is refused by the exclusive one with the list of its fields. What is
accepted is sent when its one field says, or its leading field. -/
theorem policies_consistent (v : Json) :
    (∀ r, Request.ofJson v = .ok r →
      ((fieldsSet (asObject v)).length = 1 → decode .exclusive v = decode .precedence v) ∧
      ((fieldsSet (asObject v)).length ≠ 1 → decode .exclusive v = .error (.schedule (fieldsSet (asObject v))))) ∧
    (∀ p, decode .exclusive v = .ok p → decode .precedence v = .ok p ∧
      ∃ f, fieldsSet (asObject v) = [f] ∧ Asks (asObject v) f p.schedule) ∧
    (∀ p, decode .precedence v = .ok p →
      (∀ f, leadingField (asObject v) = some f → Asks (asObject v) f p.schedule) ∧
      (leadingField (asObject v) = none → p.schedule = .counter 0)) := by
  have hpolicies : ∀ r, Request.ofJson v = .ok r → decode .exclusive v =
      if (fieldsSet (asObject v)).length = 1 then decode .precedence v
      else .error (.schedule (fieldsSet (asObject v))) := by
    intro r hr
    rw [decode_of_ofJson hr, decode_of_ofJson hr, ← scheduleFields_eq (holds_asObject hr), decode_exclusive]
  have hprecedence : ∀ p, decode .precedence v = .ok p →
      (∀ f, leadingField (asObject v) = some f → Asks (asObject v) f p.schedule) ∧
      (leadingField (asObject v) = none → p.schedule = .counter 0) := by
    intro p hp
    obtain ⟨r, hr, hp⟩ := ofJson_of_decode hp
    obtain ⟨-, m, bytes, -, -, rfl⟩ := decode_eq_ok_iff.1 hp
    exact schedule_asks (holds_asObject hr)
  refine ⟨fun r hr => ?_, fun p hp => ?_, hprecedence⟩
  · exact ⟨fun h => (hpolicies r hr).trans (if_pos h), fun h => (hpolicies r hr).trans (if_neg h)⟩
  · obtain ⟨r, hr, -⟩ := ofJson_of_decode hp
    rw [hpolicies r hr] at hp
    split_ifs at hp with hone
    obtain ⟨f, hf⟩ := List.length_eq_one_iff.1 hone
    exact ⟨hp, f, hf, (hprecedence p hp).1 f (leadingField_of_fieldsSet hf)⟩

def scheduledRequest (modu : String) (fields : List (String × Json)) : Json :=
  .obj (briefRequest modu (.int 50000) ++ fields)

/-- a count of zero is a field that is set; with a GPS time beside it, the request is refused for these two and not for
its modulation, which is unknown -/
theorem counterZero_scheduled :
    (∃ p, decode .exclusive (scheduledRequest "FSK" [("tmst", .int 0)]) = .ok p ∧
      decode .precedence (scheduledRequest "FSK" [("tmst", .int 0)]) = .ok p ∧ p.schedule = .counter 0) ∧
    ∃ r, Request.ofJson (scheduledRequest "GFSK" [("tmms", .int 0), ("tmst", .int 0)]) = .ok r ∧
      decode .exclusive (scheduledRequest "GFSK" [("tmms", .int 0), ("tmst", .int 0)]) =
        .error (.schedule [.tmst, .tmms]) := by
  refine ⟨?_, ?_⟩
  · have hok : (decode .exclusive (scheduledRequest "FSK" [("tmst", .int 0)])).toOption.isSome = true := by
      decide +kernel
    obtain ⟨p, hp⟩ := Outcome.isSome_toOption.1 hok
    obtain ⟨hsame, f, hf, hasks⟩ := (policies_consistent _).2.1 p hp
    obtain rfl : ScheduleField.tmst = f := List.singleton_inj.1 hf
    obtain ⟨c, hc, hschedule⟩ := hasks
    obtain rfl : 0 = c := UInt32.toNat_inj.1 (Int.natCast_inj.1 (Json.int.inj (Option.some.inj hc)))
    exact ⟨p, hp, hsame, hschedule⟩
  · have hok : (Request.ofJson (scheduledRequest "GFSK" [("tmms", .int 0), ("tmst", .int 0)])).toOption.isSome =
        true := by decide +kernel
    obtain ⟨r, hr⟩ := Outcome.isSome_toOption.1 hok
    exact ⟨r, hr, ((policies_consistent _).1 r hr).2 (by decide)⟩

end Downlink

end PacketForwarder
