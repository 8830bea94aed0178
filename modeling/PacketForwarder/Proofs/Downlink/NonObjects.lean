/-
Requests that are no objects. A request is a record of fourteen fields, and a record may be read from an array with the
fields in their order. So the values that are refused for their type alone are all but objects and the arrays of exactly
fourteen items.

Results:
- `notObject_decoded`: what is neither is refused as malformed, as a value under every policy and as any text of it, and
  it is dropped without a call on the radio. An array of fourteen items gets the answer of the object in which each item
  has the name of its place.
- `threeNumbers_refused`: both happen.

The way there: no request is left out of an array (`Schema.Positional`), since the payload is mandatory and comes last.
-/
import PacketForwarder.Proofs.Downlink.TextAgreement
import PacketForwarder.Proofs.Json.Positional
import PacketForwarder.Radio.Forward

namespace PacketForwarder

open Json

variable {v : Json} {vs : List Json} {text : Bytes} {policy : SchedulePolicy}

namespace Request

variable {r : Request}

theorem positional : schema.Positional where
  toSingleNames := singleNames
  nodup := by decide
  last_mandatory := by
    intro k hk
    obtain rfl : Key.data = k := Option.some.inj hk
    rfl

/-- the object that an array of the fields stands for -/
def ofPlaces (vs : List Json) : Json := .ofMembers ((Key.all.map Key.name).zip vs)

theorem ofJson_notObject (hv : ∀ ms, v ≠ .obj ms) :
    Request.ofJson v = .ok r ↔ ∃ vs, v = .arr vs ∧ vs.length = 14 ∧ Request.ofJson (ofPlaces vs) = .ok r := by
  unfold Request.ofJson
  simp only [Outcome.map_eq_ok]
  apply Iff.intro
  · intro h
    obtain ⟨rec, hrec, rfl⟩ := h
    obtain ⟨vs, rfl, hlen, hrec⟩ := (positional.ofJson_notObject hv).1 hrec
    exact ⟨vs, rfl, hlen, rec, hrec, rfl⟩
  · intro h
    obtain ⟨vs, rfl, hlen, rec, hrec, rfl⟩ := h
    exact ⟨rec, (positional.ofJson_notObject hv).2 ⟨vs, rfl, hlen, hrec⟩, rfl⟩

/-- the object that gives the fields of a request: a value itself, or what an array of the fields stands for -/
def asObject : Json → Json
  | .arr vs => ofPlaces vs
  | v => v

/-- **The object behind a value holds the request that the value is read as.** -/
theorem holds_asObject (h : Request.ofJson v = .ok r) : Holds (asObject v) r := by
  by_cases hobject : ∃ ms, v = .obj ms
  · obtain ⟨ms, rfl⟩ := hobject
    exact holds_of_ofJson h
  · obtain ⟨vs, rfl, -, hplaces⟩ := (ofJson_notObject fun ms heq => hobject ⟨ms, heq⟩).1 h
    exact holds_of_ofJson hplaces

theorem ofText_notObject (h : Json.parse text = .ok v) (hv : ∀ ms, v ≠ .obj ms) :
    Request.ofText text = .ok r ↔ Request.ofJson v = .ok r := by
  have hdistinct : ¬RepeatsField text := by
    rw [RepeatsField, rootMembers_notObject h hv]
    rintro ⟨k, hk⟩
    cases hk
  rw [ofText_eq_ok_iff h, and_iff_right hdistinct]

end Request

theorem forwardDownlink_error {ε : Type} {e : DecodeError} (h : Downlink.decode policy v = .error e) :
    (forwardDownlink policy v : Dialogue ε _) = .note (droppingLine e) (.done (.error (.decode e))) := by
  unfold forwardDownlink
  rw [h]
  rfl

namespace Downlink

/-- Malformed in every way: as a value under any policy, where a line of the log is all that comes of it, and as a
text. -/
structure Refused (v : Json) : Prop where
  value : ∀ policy, ∃ f, decode policy v = .error (.malformed f) ∧ ∀ ε : Type,
    (forwardDownlink policy v : Dialogue ε _) =
      .note (droppingLine (.malformed f)) (.done (.error (.decode (.malformed f))))
  text : ∀ text, Json.parse text = .ok v → ∃ f, decodeText text = .error (.malformed f)

/-- A value is taken for another one: it and every text of it get the answers that the other one gets. -/
structure TakenFor (v w : Json) : Prop where
  value : ∀ policy, SameAnswer (decode policy v) (decode policy w)
  text : ∀ text, Json.parse text = .ok v → SameAnswer (decodeText text) (decode .precedence w)

theorem refused_of_none (hv : ∀ ms, v ≠ .obj ms) (h : ∀ r, Request.ofJson v ≠ .ok r) : Refused v where
  value policy := by
    obtain ⟨f, hf⟩ := malformed_of_error policy h
    exact ⟨f, hf, fun ε => forwardDownlink_error hf⟩
  text _ htext := malformed_of_error .precedence fun r hr => h r ((Request.ofText_notObject htext hv).1 hr)

theorem takenFor_of_iff {w : Json} (hv : ∀ ms, v ≠ .obj ms)
    (h : ∀ r, Request.ofJson v = .ok r ↔ Request.ofJson w = .ok r) : TakenFor v w where
  value _ := sameAnswer_of_iff h
  text _ htext := sameAnswer_of_iff fun r => (Request.ofText_notObject htext hv).trans (h r)

/-- **What is no object is refused, unless it is an array of fourteen items.** Such an array is taken for the object in
which its items have the names of the fields. -/
theorem notObject_decoded (hv : ∀ ms, v ≠ .obj ms) : ((∀ vs, v = .arr vs → vs.length ≠ 14) → Refused v) ∧
    ∀ vs, v = .arr vs → vs.length = 14 → TakenFor v (Request.ofPlaces vs) := by
  refine ⟨?_, ?_⟩
  · intro hlen
    refine refused_of_none hv fun r hr => ?_
    obtain ⟨vs, hvs, h14, -⟩ := (Request.ofJson_notObject hv).1 hr
    exact hlen vs hvs h14
  · rintro vs rfl hlen
    refine takenFor_of_iff hv fun r => (Request.ofJson_notObject hv).trans ?_
    apply Iff.intro
    · intro h
      obtain ⟨vs', heq, -, hr⟩ := h
      cases heq
      exact hr
    · exact fun hr => ⟨vs, rfl, hlen, hr⟩

def fskItems : List Json :=
  [.bool false, .null, .null, .bool false, .int 868, .int 0, .int 14, .str "FSK", .int 50000, .str "", .bool false,
    .int 0, .int 25000, .str ""]

/-- an array that is refused, and one that is accepted -/
theorem threeNumbers_refused : Refused (.arr [.int 1, .int 2, .int 3]) ∧
    TakenFor (.arr fskItems) (Request.ofPlaces fskItems) ∧ ∃ p, decode .precedence (.arr fskItems) = .ok p := by
  have harr : ∀ vs ms, Json.arr vs ≠ .obj ms := fun _ _ => nofun
  refine ⟨(notObject_decoded (harr _)).1 ?_, (notObject_decoded (harr _)).2 fskItems rfl rfl, ?_⟩
  · rintro vs ⟨⟩
    decide
  · have hok : (decode .precedence (.arr fskItems)).toOption.isSome = true := by decide +kernel
    obtain ⟨p, hp⟩ := Option.isSome_iff_exists.1 hok
    exact ⟨p, Outcome.toOption_eq_some.1 hp⟩

end Downlink

end PacketForwarder
