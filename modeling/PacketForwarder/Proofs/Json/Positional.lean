/-
Records from arrays. The items of an array are the fields of a record in their order, so an array with an item for each
field stands for the object that gives each item the name of its place (`Schema.named`). The two are the same record, or
none (`ofJson_arr`), and where the last field is mandatory no array of another length is one. Every value is thus judged
by an object: the value itself, or the one that its items stand for (`ofJson_notObject`).
-/
import PacketForwarder.Proofs.Json.TwoReaders

namespace PacketForwarder.Json

namespace Schema

variable {S : Schema} {ks : List S.Key} {vs : List Json} {v : Json} {k : S.Key} {d d' : S.Draft} {r : S.Record}
  {n place : Nat}

/-! ## Items and members -/

variable (S) in
/-- the members that the items of an array stand for -/
def named (vs : List Json) : List (String × Json) := (S.keys.map S.name).zip vs

theorem visit_name (hS : S.SingleNames) (hnew : d k = none) :
    S.visit d (S.name k, v) = d.set k <$> (S.kind k).ofJson v := by
  have hkey : S.key? (S.name k) = some k := hS.key?_eq_some.2 rfl
  simp only [visit, hkey, hnew, Option.isSome_none, Bool.false_eq_true, ↓reduceIte]

/-- items for all of the fields are visited as members with the names of the fields -/
theorem visitItems_eq_foldlM (hS : S.SingleNames) (hlen : vs.length = ks.length) (hnodup : ks.Nodup)
    (hnew : ∀ k ∈ ks, d k = none) :
    S.visitItems n place d ks vs = ((ks.map S.name).zip vs).foldlM S.visit d := by
  induction ks generalizing vs d place with
  | nil =>
    obtain rfl := List.eq_nil_of_length_eq_zero hlen
    rfl
  | cons k ks ih =>
    obtain ⟨v, vs, rfl⟩ := List.exists_cons_of_length_eq_add_one hlen
    obtain ⟨hk, hnodup⟩ := List.nodup_cons.1 hnodup
    have hrest : ∀ x : (S.kind k).Carrier, ∀ k' ∈ ks, d.set k x k' = none := by
      intro x k' hk'
      have hne : k' ≠ k := fun heq => hk (heq ▸ hk')
      rw [set_of_ne hne]
      exact hnew k' (List.mem_cons_of_mem k hk')
    rw [visitItems, List.map_cons, List.zip_cons_cons, List.foldlM_cons, visit_name hS (hnew k List.mem_cons_self)]
    cases (S.kind k).ofJson v with
    | error e => rfl
    | ok x => exact ih (Nat.succ.inj hlen) hnodup (hrest x)

/-- where the last field is mandatory, there is an item for each field -/
theorem length_of_visitItems (hlast : ∀ k ∈ ks.getLast?, S.default k = none)
    (h : S.visitItems n place d ks vs = .ok d') : vs.length = ks.length := by
  induction ks generalizing vs d place with
  | nil =>
    cases vs with
    | nil => rfl
    | cons v vs => cases h
  | cons k ks ih =>
    have hlast' : ∀ k' ∈ ks.getLast?, S.default k' = none := by
      intro k' hk'
      refine hlast k' ?_
      rw [List.getLast?_cons, Option.mem_def.1 hk']
      rfl
    cases vs with
    | nil =>
      rw [visitItems] at h
      split_ifs at h with hdefault
      obtain rfl := List.eq_nil_of_length_eq_zero (ih hlast' h).symm
      rw [hlast k rfl] at hdefault
      cases hdefault
    | cons v vs =>
      obtain ⟨x, -, h⟩ := Outcome.bind_eq_ok.1 h
      exact congrArg Nat.succ (ih hlast' h)

/-! ## Arrays -/

variable (S) in
/-- A record that can be read from an array only if all its fields are there: each has one name, none stands twice, and
the last one is mandatory. -/
structure Positional : Prop extends S.SingleNames where
  nodup : S.keys.Nodup
  last_mandatory : ∀ k ∈ S.keys.getLast?, S.default k = none

theorem names_named (hlen : vs.length = S.keys.length) : names (S.named vs) = S.keys.map S.name := by
  refine List.map_fst_zip ?_
  rw [List.length_map, hlen]

theorem Positional.distinct_named (hS : S.Positional) (hlen : vs.length = S.keys.length) :
    S.Distinct (S.named vs) := by
  refine hS.toSingleNames.distinct_iff.2 fun k => List.nodup_iff_count_le_one.1 ?_ _
  rw [names_named hlen]
  exact hS.nodup.map hS.injective

/-- **An array is a record if it has an item for each field**, and the object with these members is the record. -/
theorem Positional.ofJson_arr (hS : S.Positional) :
    S.ofJson (.arr vs) = .ok r ↔ vs.length = S.keys.length ∧ S.ofJson (ofMembers (S.named vs)) = .ok r := by
  have harr : S.ofJson (.arr vs) = S.visitItems vs.length 0 blank S.keys vs >>= S.complete := rfl
  have hobject : vs.length = S.keys.length →
      (S.ofJson (.arr vs) = .ok r ↔ S.ofJson (ofMembers (S.named vs)) = .ok r) := by
    intro hlen
    have hblank : ∀ k ∈ S.keys, (blank : S.Draft) k = none := fun _ _ => rfl
    rw [ofJson_ofMembers (hS.distinct_named hlen), harr, visitItems_eq_foldlM hS.toSingleNames hlen hS.nodup hblank]
    rfl
  apply Iff.intro
  · intro h
    obtain ⟨d, hvisit, -⟩ := Outcome.bind_eq_ok.1 (harr ▸ h)
    have hlen := length_of_visitItems hS.last_mandatory hvisit
    exact ⟨hlen, (hobject hlen).1 h⟩
  · intro h
    obtain ⟨hlen, h⟩ := h
    exact (hobject hlen).2 h

/-- **What is no object is a record only as an array with an item for each field.** -/
theorem Positional.ofJson_notObject (hS : S.Positional) (hv : ∀ ms, v ≠ .obj ms) : S.ofJson v = .ok r ↔
    ∃ vs, v = .arr vs ∧ vs.length = S.keys.length ∧ S.ofJson (ofMembers (S.named vs)) = .ok r := by
  cases v with
  | arr vs =>
    rw [hS.ofJson_arr]
    apply Iff.intro
    · exact fun h => ⟨vs, rfl, h⟩
    · intro h
      obtain ⟨vs', heq, h⟩ := h
      cases heq
      exact h
  | obj ms => exact absurd rfl (hv ms)
  | null | bool | int | float | str => exact iff_of_false nofun nofun

end Schema

theorem rootMembers_notObject {text : Bytes} {v : Json} (h : parse text = .ok v) (hv : ∀ ms, v ≠ .obj ms) :
    rootMembers text = [] := by
  obtain ⟨rest, hvalue, -⟩ := parse_eq_ok.1 h
  rcases Reader.gives_value_succ.1 hvalue with ⟨hscalar, hhead⟩ | ⟨t, vs, hhead, -⟩ | ⟨t, ms, -, -, -, rfl⟩
  · exact rootMembers_other hhead hscalar.2
  · exact rootMembers_other hhead (by decide)
  · exact absurd rfl (hv _)

end PacketForwarder.Json
