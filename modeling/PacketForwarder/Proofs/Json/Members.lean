/-
The members of an object, in the order of the text and in the order of their keys. `sortMembers` is how the reader puts
members in order, the last of equal keys counting; what comes out has ascending keys (`sortMembers_sorted`). Where the
keys that somebody cares about are given once each, the members with these keys only change their places
(`filter_sortMembers`), so they can be looked up in either list. Members whose names are exchanged change their places
too (`sortMembers_rename`).
-/
import Mathlib.Data.List.Nodup
import Mathlib.Data.List.Perm.Basic
import Mathlib.Data.String.Basic
import Mathlib.Tactic
import PacketForwarder.Json.Value

namespace PacketForwarder.Json

variable {α : Type} {key : String} {v : Json} {ms acc : List (String × Json)} {p : String → Bool}

def names (ms : List (String × α)) : List String := ms.map Prod.fst

/-- members in the order of their keys -/
def sortMembers (ms : List (String × Json)) : List (String × Json) :=
  ms.foldl (fun acc m => insertMember m.1 m.2 acc) []

theorem ofMembers_eq (ms : List (String × Json)) : ofMembers ms = .obj (sortMembers ms) := rfl

/-! ## Order -/

theorem mem_insertMember {m : String × Json} (h : m ∈ insertMember key v ms) : m = (key, v) ∨ m ∈ ms := by
  induction ms with
  | nil => exact Or.inl (List.mem_singleton.1 h)
  | cons m' ms ih =>
    unfold insertMember at h
    split_ifs at h
    · exact (List.mem_cons.1 h).imp id id
    · rcases List.mem_cons.1 h with h | h
      · exact Or.inl h
      · exact Or.inr (List.mem_cons_of_mem _ h)
    · rcases List.mem_cons.1 h with rfl | h
      · exact Or.inr List.mem_cons_self
      · exact (ih h).imp id (List.mem_cons_of_mem _)

/-- ascending keys, each once -/
def Ascending (ms : List (String × Json)) : Prop := ms.Pairwise fun a b => a.1 < b.1

theorem ascending_insertMember (h : Ascending ms) : Ascending (insertMember key v ms) := by
  induction ms with
  | nil => exact List.pairwise_singleton _ _
  | cons m ms ih =>
    obtain ⟨hm, hms⟩ := List.pairwise_cons.1 h
    unfold insertMember
    split_ifs with hlt heq
    · refine List.pairwise_cons.2 ⟨fun m' hm' => ?_, h⟩
      rcases List.mem_cons.1 hm' with rfl | hm'
      · exact hlt
      · exact hlt.trans (hm m' hm')
    · subst heq
      exact List.pairwise_cons.2 ⟨hm, hms⟩
    · refine List.pairwise_cons.2 ⟨fun m' hm' => ?_, ih hms⟩
      rcases mem_insertMember hm' with rfl | hm'
      · exact lt_of_le_of_ne (not_lt.1 hlt) (Ne.symm heq)
      · exact hm m' hm'

theorem ascending_foldl (h : Ascending acc) : Ascending (ms.foldl (fun acc m => insertMember m.1 m.2 acc) acc) := by
  induction ms generalizing acc with
  | nil => exact h
  | cons m ms ih => exact ih (ascending_insertMember h)

/-- **What is read of an object has ascending keys.** -/
theorem sortMembers_sorted (ms : List (String × Json)) : Ascending (sortMembers ms) :=
  ascending_foldl List.Pairwise.nil

theorem Ascending.nodup (h : Ascending ms) : (names ms).Nodup :=
  List.pairwise_map.2 (h.imp ne_of_lt)

/-! ## Looking up -/

theorem lookup_cons_ite (m : String × α) (ms : List (String × α)) :
    (m :: ms).lookup key = if key = m.1 then some m.2 else ms.lookup key := by
  obtain ⟨name, a⟩ := m
  rw [List.lookup_cons]
  by_cases h : key = name
  · simp [h]
  · have hne : (key == name) = false := by simpa using h
    simp [h, hne]

theorem lookup_map {β : Type} (g : α → β) (ms : List (String × α)) :
    (ms.map fun m => (m.1, g m.2)).lookup key = (ms.lookup key).map g := by
  induction ms with
  | nil => rfl
  | cons m ms ih =>
    rw [List.map_cons, lookup_cons_ite, lookup_cons_ite, ih]
    split_ifs <;> rfl

theorem mem_of_lookup {ms : List (String × α)} {a : α} (h : ms.lookup key = some a) : (key, a) ∈ ms := by
  induction ms with
  | nil => cases h
  | cons m ms ih =>
    rw [lookup_cons_ite] at h
    split_ifs at h with heq
    · obtain rfl := Option.some.inj h
      exact heq ▸ List.mem_cons_self
    · exact List.mem_cons_of_mem m (ih h)

theorem lookup_insertMember {k : String} :
    (insertMember key v ms).lookup k = if k = key then some v else ms.lookup k := by
  induction ms with
  | nil => exact lookup_cons_ite (key, v) []
  | cons m ms ih =>
    unfold insertMember
    by_cases hlt : key < m.1
    · rw [if_pos hlt]
      exact lookup_cons_ite (key, v) (m :: ms)
    rw [if_neg hlt]
    by_cases heq : key = m.1
    · rw [if_pos heq, lookup_cons_ite, lookup_cons_ite m ms, ← heq]
      split_ifs <;> rfl
    · have hne : k = m.1 → k ≠ key := fun hm hk => heq (hk ▸ hm)
      rw [if_neg heq, lookup_cons_ite, lookup_cons_ite m ms, ih]
      split_ifs with hm hk
      · exact absurd hk (hne hm)
      all_goals rfl

/-- **Of repeated keys the last value counts.** -/
theorem get?_ofMembers (ms : List (String × Json)) : (ofMembers ms).get? key = ms.reverse.lookup key := by
  have hfold : ∀ acc, (ms.foldl (fun acc m => insertMember m.1 m.2 acc) acc).lookup key =
      (ms.reverse ++ acc).lookup key := by
    induction ms with
    | nil => exact fun acc => rfl
    | cons m ms ih =>
      intro acc
      rw [List.foldl_cons, ih, List.reverse_cons, List.append_assoc, List.lookup_append, List.lookup_append,
        lookup_insertMember, List.singleton_append, lookup_cons_ite]
  have h := hfold []
  rwa [List.append_nil] at h

theorem get?_ofMembers_concat {k : String} :
    (ofMembers (ms ++ [(key, v)])).get? k = if k = key then some v else (ofMembers ms).get? k := by
  rw [get?_ofMembers, get?_ofMembers, List.reverse_append]
  exact lookup_cons_ite (key, v) ms.reverse

/-! ## Members that are given once -/

def withKeys (p : String → Bool) (ms : List (String × α)) : List (String × α) := ms.filter fun m => p m.1

theorem withKeys_append (as bs : List (String × α)) : withKeys p (as ++ bs) = withKeys p as ++ withKeys p bs :=
  List.filter_append as bs

theorem withKeys_cons_pos {m : String × α} {ms : List (String × α)} (h : p m.1 = true) :
    withKeys p (m :: ms) = m :: withKeys p ms := List.filter_cons_of_pos h

theorem withKeys_cons_neg {m : String × α} {ms : List (String × α)} (h : p m.1 = false) :
    withKeys p (m :: ms) = withKeys p ms := List.filter_cons_of_neg (by simp [h])

theorem lookup_of_mem {ms : List (String × α)} {a : α} (hms : (names ms).Nodup) (h : (key, a) ∈ ms) :
    ms.lookup key = some a := by
  induction ms with
  | nil => cases h
  | cons m ms ih =>
    obtain ⟨hnew, hms⟩ := List.nodup_cons.1 hms
    rw [lookup_cons_ite]
    rcases List.mem_cons.1 h with rfl | hmem
    · exact if_pos rfl
    · have hne : key ≠ m.1 := fun heq => hnew (heq ▸ List.mem_map_of_mem hmem)
      rw [if_neg hne]
      exact ih hms hmem

theorem get?_ofMembers_of_mem (hms : (names ms).Nodup) (h : (key, v) ∈ ms) : (ofMembers ms).get? key = some v := by
  have hreverse : (names ms.reverse).Nodup := by
    rw [names, List.map_reverse]
    exact List.nodup_reverse.2 hms
  rw [get?_ofMembers]
  exact lookup_of_mem hreverse (List.mem_reverse.2 h)

theorem mem_names {ms : List (String × α)} : key ∈ names ms ↔ ∃ a, (key, a) ∈ ms := by
  simp [names]

theorem lookup_eq_none {ms : List (String × α)} : ms.lookup key = none ↔ key ∉ names ms := by
  rw [List.lookup_eq_none_iff, names, List.mem_map]
  simp only [bne_iff_ne, ne_eq, not_exists, not_and]
  exact forall₂_congr fun m _ => not_congr eq_comm

theorem mem_names_withKeys {ms : List (String × α)} : key ∈ names (withKeys p ms) ↔ p key = true ∧ key ∈ names ms := by
  rw [mem_names, mem_names]
  apply Iff.intro
  · intro h
    obtain ⟨a, ha⟩ := h
    obtain ⟨hmem, hkey⟩ := List.mem_filter.1 ha
    exact ⟨hkey, a, hmem⟩
  · intro h
    obtain ⟨hkey, a, hmem⟩ := h
    exact ⟨a, List.mem_filter.2 ⟨hmem, hkey⟩⟩

theorem insertMember_perm (h : key ∉ names ms) : (insertMember key v ms).Perm ((key, v) :: ms) := by
  induction ms with
  | nil => exact List.Perm.refl _
  | cons m ms ih =>
    obtain ⟨hne, hms⟩ := not_or.1 (List.mem_cons.not.1 h)
    unfold insertMember
    split_ifs
    · exact List.Perm.refl _
    · exact ((ih hms).cons m).trans (List.Perm.swap _ _ _)

/-- a key of no interest changes nothing of interest -/
theorem withKeys_insertMember (h : p key = false) : withKeys p (insertMember key v ms) = withKeys p ms := by
  induction ms with
  | nil => exact withKeys_cons_neg h
  | cons m ms ih =>
    unfold insertMember
    split_ifs with hlt heq
    · exact withKeys_cons_neg h
    · have hm : p m.1 = false := heq ▸ h
      rw [withKeys_cons_neg h, withKeys_cons_neg hm]
    · cases hp : p m.1 with
      | true => rw [withKeys_cons_pos hp, withKeys_cons_pos hp, ih]
      | false => rw [withKeys_cons_neg hp, withKeys_cons_neg hp, ih]

theorem withKeys_foldl (h : (names (withKeys p (acc ++ ms))).Nodup) :
    (withKeys p (ms.foldl (fun acc m => insertMember m.1 m.2 acc) acc)).Perm (withKeys p (acc ++ ms)) := by
  induction ms generalizing acc with
  | nil =>
    rw [List.append_nil]
    exact List.Perm.refl _
  | cons m ms ih =>
    have hone : (withKeys p (insertMember m.1 m.2 acc ++ ms)).Perm (withKeys p (acc ++ m :: ms)) := by
      cases hp : p m.1 with
      | true =>
        have hnew : m.1 ∉ names acc := by
          intro hmem
          rw [withKeys_append, withKeys_cons_pos hp, names, List.map_append, List.nodup_append] at h
          exact h.2.2 m.1 (mem_names_withKeys.2 ⟨hp, hmem⟩) m.1 List.mem_cons_self rfl
        exact (((insertMember_perm hnew).append_right ms).trans (List.perm_middle.symm)).filter _
      | false => rw [withKeys_append, withKeys_append, withKeys_insertMember hp, withKeys_cons_neg hp]
    exact (ih ((hone.map Prod.fst).nodup_iff.2 h)).trans hone

/-- **Members that are given once stay, in another place.** -/
theorem filter_sortMembers (h : (names (withKeys p ms)).Nodup) : (withKeys p (sortMembers ms)).Perm (withKeys p ms) :=
  withKeys_foldl h

/-! ## Equal objects -/

/-- members with the same distinct keys in the same order, but for their places -/
theorem eq_of_perm {ms' : List (String × Json)} (hperm : ms.Perm ms') (hnames : names ms = names ms')
    (hnodup : (names ms').Nodup) : ms = ms' := by
  refine List.ext_getElem hperm.length_eq fun i hi hi' => ?_
  obtain ⟨j, hj, hij⟩ := List.getElem_of_mem (hperm.subset (List.getElem_mem hi))
  have hplace : ms[i].1 = ms'[i].1 := by
    have h := congrArg (fun l => l[i]?) hnames
    simpa [names, hi, hi'] using h
  have hlen : ∀ {k : Nat}, k < ms'.length → k < (names ms').length := by
    intro k hk
    rwa [names, List.length_map]
  have hkey : (names ms').get ⟨j, hlen hj⟩ = (names ms').get ⟨i, hlen hi'⟩ := by
    simp only [names, List.get_eq_getElem, List.getElem_map]
    rw [hij, hplace]
  have hsame : j = i := congrArg Fin.val (hnodup.get_inj_iff.1 hkey)
  subst hsame
  exact hij.symm

/-- ascending members with the same values of some keys have the same members with these keys -/
theorem Ascending.withKeys_eq {ms' : List (String × Json)} (h : Ascending ms) (h' : Ascending ms')
    (hsame : ∀ key, p key = true → ms.lookup key = ms'.lookup key) : withKeys p ms = withKeys p ms' := by
  have hnodup : ∀ {l : List (String × Json)}, Ascending l → (withKeys p l).Nodup := fun hl =>
    hl.nodup.of_map.filter _
  have hmem : ∀ {l : List (String × Json)} {m : String × Json}, Ascending l →
      (m ∈ withKeys p l ↔ p m.1 = true ∧ l.lookup m.1 = some m.2) := by
    intro l m hl
    rw [withKeys, List.mem_filter, and_comm]
    exact and_congr_right fun _ => ⟨lookup_of_mem hl.nodup, mem_of_lookup⟩
  have hperm : (withKeys p ms).Perm (withKeys p ms') := by
    refine (List.perm_ext_iff_of_nodup (hnodup h) (hnodup h')).2 fun m => ?_
    rw [hmem h, hmem h']
    exact and_congr_right fun hm => by rw [hsame m.1 hm]
  exact hperm.eq_of_pairwise (fun _ _ _ _ hab hba => absurd hba (not_lt_of_gt hab)) (h.filter _) (h'.filter _)

/-- **Objects that list the same keys are equal only if the members are.** -/
theorem ofMembers_inj {ms' : List (String × Json)} (hnames : names ms = names ms') (hnodup : (names ms').Nodup) :
    ofMembers ms = ofMembers ms' ↔ ms = ms' := by
  have hperm : ∀ {l : List (String × Json)}, (names l).Nodup → (sortMembers l).Perm l := by
    intro l hl
    have hall : ∀ l : List (String × Json), withKeys (fun _ => true) l = l := List.filter_true
    have h : (withKeys (fun _ => true) (sortMembers l)).Perm (withKeys (fun _ => true) l) :=
      filter_sortMembers (by rwa [hall])
    rwa [hall, hall] at h
  apply Iff.intro
  · intro h
    have hsort : sortMembers ms = sortMembers ms' := Json.obj.inj h
    refine eq_of_perm ?_ hnames hnodup
    exact (hperm (hnames ▸ hnodup)).symm.trans (hsort ▸ hperm hnodup)
  · rintro rfl
    rfl

/-! ## Members under other names -/

/-- members with their names exchanged -/
def rename (e : Equiv.Perm String) (ms : List (String × α)) : List (String × α) := ms.map fun m => (e m.1, m.2)

theorem lookup_rename (e : Equiv.Perm String) (ms : List (String × α)) :
    (rename e ms).lookup (e key) = ms.lookup key := by
  induction ms with
  | nil => rfl
  | cons m ms ih =>
    rw [rename, List.map_cons, lookup_cons_ite, lookup_cons_ite, ← rename, ih]
    exact if_congr e.apply_eq_iff_eq rfl rfl

theorem names_rename (e : Equiv.Perm String) (ms : List (String × α)) : names (rename e ms) = (names ms).map e := by
  rw [names, names, rename, List.map_map, List.map_map]
  rfl

theorem mem_sortMembers : (key, v) ∈ sortMembers ms ↔ (ofMembers ms).get? key = some v :=
  ⟨lookup_of_mem (sortMembers_sorted ms).nodup, mem_of_lookup⟩

/-- an object under other names has its members in another order -/
theorem sortMembers_rename (e : Equiv.Perm String) (ms : List (String × Json)) :
    (sortMembers (rename e ms)).Perm (rename e (sortMembers ms)) := by
  have hget : ∀ key, (ofMembers (rename e ms)).get? (e key) = (ofMembers ms).get? key := by
    intro key
    rw [get?_ofMembers, get?_ofMembers, rename, ← List.map_reverse]
    exact lookup_rename e ms.reverse
  refine (List.perm_ext_iff_of_nodup ?_ ?_).2 fun m => ?_
  · exact (sortMembers_sorted _).nodup.of_map
  · have hnodup := (sortMembers_sorted ms).nodup.map e.injective
    rw [← names_rename] at hnodup
    exact hnodup.of_map
  · obtain ⟨name, v⟩ := m
    obtain ⟨key, rfl⟩ := e.surjective name
    rw [mem_sortMembers, hget, ← mem_sortMembers, rename, List.mem_map]
    apply Iff.intro
    · exact fun h => ⟨_, h, rfl⟩
    · rintro ⟨m, hm, heq⟩
      obtain ⟨hname, rfl⟩ := Prod.mk.inj heq
      exact e.injective hname ▸ hm

end PacketForwarder.Json
