/-
Records from members. `Schema.given` is the value that a list of members gives for a field, and `Schema.field` what the
field then is: what its kind makes of the value, or its default. Visiting the members one by one succeeds exactly if no
field is given twice and every field that is given is of its kind (`foldlM_visit`); so an object is a record exactly if,
besides, no mandatory field is missing (`ofJson_obj`). Only the members with names of fields matter, and not their
order (`ofJson_of_perm`), nor which of the names of a field is used (`Respells.ofJson_rename`).
-/
import PacketForwarder.Json.Record
import PacketForwarder.Proofs.Json.Members
import PacketForwarder.Proofs.Outcome

namespace PacketForwarder.Json

/-! ## Fields of a kind -/

namespace Kind

variable {v : Json} {bits : Nat}

theorem bool_eq_ok {b : Bool} : (scalar .bool).ofJson v = .ok b ↔ v = .bool b := by
  apply Iff.intro
  · intro h
    cases v <;> cases h
    rfl
  · rintro rfl
    rfl

theorem text_eq_ok {s : String} : (scalar .text).ofJson v = .ok s ↔ v = .str s := by
  apply Iff.intro
  · intro h
    cases v <;> cases h
    rfl
  · rintro rfl
    rfl

theorem real_eq_ok {x : Double} : (scalar .real).ofJson v = .ok x ↔ v.toDouble? = some x := by
  cases v with
  | int n => exact ⟨fun h => congrArg some (Except.ok.inj h), fun h => congrArg Except.ok (Option.some.inj h)⟩
  | float y => exact ⟨fun h => congrArg some (Except.ok.inj h), fun h => congrArg Except.ok (Option.some.inj h)⟩
  | null | bool | str | arr | obj => exact iff_of_false (fun h => by cases h) fun h => by cases h

theorem natural_int (n : Int) : (scalar (.natural bits)).ofJson (.int n) =
    if 0 ≤ n ∧ n < twoPow bits then .ok (BitVec.ofInt bits n)
    else .error (Fault.wrongValue (.int n) (Scalar.wanted (.natural bits))) := rfl

theorem toNat_ofInt_of_lt {n : Int} (h : 0 ≤ n ∧ n < twoPow bits) : ((BitVec.ofInt bits n).toNat : Int) = n := by
  have hlt : n < ((2 ^ bits : Nat) : Int) := h.2
  rw [BitVec.toNat_ofInt, Int.emod_eq_of_lt h.1 hlt, Int.toNat_of_nonneg h.1]

theorem natural_eq_ok {w : BitVec bits} : (scalar (.natural bits)).ofJson v = .ok w ↔ v = .int w.toNat := by
  apply Iff.intro
  · intro h
    cases v with
    | int n =>
      rw [natural_int] at h
      split_ifs at h with hn
      cases h
      rw [toNat_ofInt_of_lt hn]
    | null | bool | float | str | arr | obj => cases h
  · rintro rfl
    have hlt : w.toNat < twoPow bits := w.isLt
    have hn : (0 : Int) ≤ (w.toNat : Int) ∧ (w.toNat : Int) < twoPow bits :=
      ⟨Int.natCast_nonneg _, by exact_mod_cast hlt⟩
    rw [natural_int, if_pos hn]
    refine congrArg Except.ok (BitVec.eq_of_toNat_eq ?_)
    exact_mod_cast toNat_ofInt_of_lt hn

theorem optional_eq_ok {kind : Scalar} {o : Option kind.Carrier} : (optional kind).ofJson v = .ok o ↔
    (o = none ∧ v = .null) ∨ ∃ x, o = some x ∧ v ≠ .null ∧ (scalar kind).ofJson v = .ok x := by
  have hnull : v.head = .null ↔ v = .null := by cases v <;> simp [head]
  by_cases h : v = .null
  · subst h
    simp [ofJson, judgeOptional, head, eq_comm]
  · have hhead : v.head ≠ .null := fun heq => h (hnull.1 heq)
    have hjudge : (optional kind).ofJson v = some <$> (scalar kind).ofJson v := if_neg hhead
    rw [hjudge, Outcome.map_eq_ok]
    apply Iff.intro
    · intro h
      obtain ⟨x, hx, rfl⟩ := h
      exact Or.inr ⟨x, rfl, h, hx⟩
    · intro h
      rcases h with ⟨-, rfl⟩ | ⟨x, rfl, -, hx⟩
      · exact absurd rfl h
      · exact ⟨x, hx, rfl⟩

end Kind

namespace Schema

variable {S : Schema} {ms ms' : List (String × Json)} {d d₀ : S.Draft} {k : S.Key} {m : String × Json} {r : S.Record}

/-! ## Drafts -/

@[simp]
theorem set_self {v : (S.kind k).Carrier} : d.set k v k = some v := by
  simp [Draft.set]

theorem set_of_ne {k' : S.Key} {v : (S.kind k).Carrier} (h : k' ≠ k) : d.set k v k' = d k' := by
  simp [Draft.set, h]

theorem complete_eq_ok : S.complete d = .ok r ↔ ∀ k, d.value? k = some (r k) := by
  unfold complete
  split
  · rename_i k hk
    have hnone : (d.value? k).isNone = true := List.find?_some (p := fun k => (d.value? k).isNone) hk
    refine iff_of_false (by simp) fun hall => ?_
    rw [hall k] at hnone
    cases hnone
  · apply Iff.intro
    · intro h k
      cases h
      exact (Option.some_get _).symm
    · intro hall
      refine congrArg Except.ok (funext fun k => ?_)
      exact Option.some.inj ((Option.some_get _).trans (hall k))

/-! ## Fields that are given -/

variable (S)

def givenKeys (ms : List (String × Json)) : List S.Key := ms.filterMap fun m => S.key? m.1

/-- no field is given twice -/
def Distinct (ms : List (String × Json)) : Prop := (S.givenKeys ms).Nodup

def given (ms : List (String × Json)) (k : S.Key) : Option Json :=
  (ms.find? fun m => S.key? m.1 = some k).map Prod.snd

/-- a field, of the value that is given for it or by default -/
def field (k : S.Key) : Option Json → Except Fault (S.kind k).Carrier
  | some v => (S.kind k).ofJson v
  | none => (S.default k).elim (.error (.missingField (S.name k))) .ok

variable {S}

theorem given_cons_self (h : S.key? m.1 = some k) : S.given (m :: ms) k = some m.2 := by
  simp [given, h]

theorem given_cons_of_ne (h : S.key? m.1 ≠ some k) : S.given (m :: ms) k = S.given ms k := by
  simp [given, h]

theorem given_eq_none : S.given ms k = none ↔ k ∉ S.givenKeys ms := by
  simp [given, givenKeys]

theorem givenKeys_cons_none (h : S.key? m.1 = none) : S.givenKeys (m :: ms) = S.givenKeys ms := by
  simp [givenKeys, h]

theorem givenKeys_cons_some (h : S.key? m.1 = some k) : S.givenKeys (m :: ms) = k :: S.givenKeys ms := by
  simp [givenKeys, h]

theorem Distinct.tail (h : S.Distinct (m :: ms)) : S.Distinct ms := by
  unfold Distinct at *
  cases hm : S.key? m.1 with
  | none => rwa [givenKeys_cons_none hm] at h
  | some k =>
    rw [givenKeys_cons_some hm] at h
    exact (List.nodup_cons.1 h).2

/-- where no field is given twice, the value of a field is that of any member with its name -/
theorem given_eq_some (hms : S.Distinct ms) {v : Json} :
    S.given ms k = some v ↔ ∃ name, (name, v) ∈ ms ∧ S.key? name = some k := by
  induction ms with
  | nil => simp [given]
  | cons m ms ih =>
    by_cases hm : S.key? m.1 = some k
    · have hnew : k ∉ S.givenKeys ms := by
        rw [Distinct, givenKeys_cons_some hm] at hms
        exact (List.nodup_cons.1 hms).1
      rw [given_cons_self hm]
      apply Iff.intro
      · intro h
        obtain rfl := Option.some.inj h
        exact ⟨m.1, List.mem_cons_self, hm⟩
      · intro h
        obtain ⟨name, hmem, hkey⟩ := h
        rcases List.mem_cons.1 hmem with rfl | hmem
        · rfl
        · exact absurd (List.mem_filterMap.2 ⟨_, hmem, hkey⟩) hnew
    · rw [given_cons_of_ne hm, ih hms.tail]
      apply Iff.intro
      · intro h
        obtain ⟨name, hmem, hkey⟩ := h
        exact ⟨name, List.mem_cons_of_mem m hmem, hkey⟩
      · intro h
        obtain ⟨name, hmem, hkey⟩ := h
        rcases List.mem_cons.1 hmem with rfl | hmem
        · exact absurd hkey hm
        · exact ⟨name, hmem, hkey⟩

theorem field_eq_ok {given : Option Json} {x : (S.kind k).Carrier} : S.field k given = .ok x ↔
    (given = none ∧ S.default k = some x) ∨ ∃ v, given = some v ∧ (S.kind k).ofJson v = .ok x := by
  cases given with
  | none => cases hdef : S.default k <;> simp [field, hdef]
  | some v => simp [field]

/-! ## Visiting members -/

/-- the draft holds the fields that members give, and else what another draft holds -/
def Filled (d₀ : S.Draft) (ms : List (String × Json)) (d : S.Draft) : Prop :=
  ∀ k, match S.given ms k with
    | none => d k = d₀ k
    | some v => d₀ k = none ∧ ∃ x, (S.kind k).ofJson v = .ok x ∧ d k = some x

theorem visit_none (hm : S.key? m.1 = none) : S.visit d m = .ok d := by
  simp [visit, hm]

theorem visit_some (hm : S.key? m.1 = some k) {d' : S.Draft} :
    S.visit d m = .ok d' ↔ d k = none ∧ ∃ x, (S.kind k).ofJson m.2 = .ok x ∧ d' = d.set k x := by
  simp only [visit, hm]
  cases hk : d k with
  | some x => simp
  | none =>
    rw [if_neg (by simp), Outcome.map_eq_ok]
    apply Iff.intro
    · intro h
      obtain ⟨x, hx, rfl⟩ := h
      exact ⟨rfl, x, hx, rfl⟩
    · intro h
      obtain ⟨-, x, hx, rfl⟩ := h
      exact ⟨x, hx, rfl⟩

/-- a draft that a member and others fill is one with the field of the member, filled by the others -/
theorem filled_cons (hm : S.key? m.1 = some k) : k ∉ S.givenKeys ms ∧ Filled d₀ (m :: ms) d ↔
    d₀ k = none ∧ ∃ x, (S.kind k).ofJson m.2 = .ok x ∧ Filled (d₀.set k x) ms d := by
  have hother : ∀ k', k' ≠ k → S.given (m :: ms) k' = S.given ms k' := fun k' hne =>
    given_cons_of_ne (by simpa [hm] using Ne.symm hne)
  apply Iff.intro
  · intro h
    obtain ⟨hnew, hfilled⟩ := h
    have hk := hfilled k
    rw [given_cons_self hm] at hk
    obtain ⟨hnone, x, hx, hdk⟩ := hk
    refine ⟨hnone, x, hx, fun k' => ?_⟩
    by_cases heq : k' = k
    · subst heq
      rw [given_eq_none.2 hnew]
      exact hdk.trans set_self.symm
    · have hk' := hfilled k'
      rw [hother k' heq, ← set_of_ne (d := d₀) (v := x) heq] at hk'
      exact hk'
  · intro h
    obtain ⟨hnone, x, hx, hfilled⟩ := h
    have hgiven : S.given ms k = none := by
      have hk := hfilled k
      cases hg : S.given ms k with
      | none => rfl
      | some v => simp [hg] at hk
    refine ⟨given_eq_none.1 hgiven, fun k' => ?_⟩
    by_cases heq : k' = k
    · subst heq
      have hdk := hfilled k'
      rw [hgiven] at hdk
      rw [given_cons_self hm]
      exact ⟨hnone, x, hx, hdk.trans set_self⟩
    · rw [hother k' heq, ← set_of_ne (d := d₀) (v := x) heq]
      exact hfilled k'

/-- **Members one by one fill a draft, each field once.** -/
theorem foldlM_visit : ms.foldlM S.visit d₀ = .ok d ↔ S.Distinct ms ∧ Filled d₀ ms d := by
  induction ms generalizing d₀ with
  | nil =>
    apply Iff.intro
    · intro h
      cases h
      exact ⟨List.nodup_nil, fun k => rfl⟩
    · intro h
      obtain ⟨-, hfilled⟩ := h
      exact congrArg Except.ok (funext hfilled).symm
  | cons m ms ih =>
    rw [List.foldlM_cons, Outcome.bind_eq_ok]
    cases hm : S.key? m.1 with
    | none =>
      have hgiven : ∀ k, S.given (m :: ms) k = S.given ms k := fun k => given_cons_of_ne (by simp [hm])
      simp only [visit_none hm, Except.ok.injEq, exists_eq_left', ih, Distinct, givenKeys_cons_none hm, Filled, hgiven]
    | some k =>
      rw [Distinct, givenKeys_cons_some hm, List.nodup_cons]
      calc (∃ d₁, S.visit d₀ m = .ok d₁ ∧ ms.foldlM S.visit d₁ = .ok d)
          ↔ S.Distinct ms ∧ d₀ k = none ∧ ∃ x, (S.kind k).ofJson m.2 = .ok x ∧ Filled (d₀.set k x) ms d := by
            simp only [visit_some hm, ih]
            aesop
        _ ↔ S.Distinct ms ∧ k ∉ S.givenKeys ms ∧ Filled d₀ (m :: ms) d := by rw [filled_cons hm]
        _ ↔ (k ∉ S.givenKeys ms ∧ (S.givenKeys ms).Nodup) ∧ Filled d₀ (m :: ms) d := by
            rw [and_left_comm, and_assoc, Distinct]

/-! ## Objects -/

/-- **An object is a record** exactly if no field is given twice, every field is of its kind, and no mandatory field is
missing; each field is then what is given for it, or its default. -/
theorem ofJson_obj : S.ofJson (.obj ms) = .ok r ↔ S.Distinct ms ∧ ∀ k, S.field k (S.given ms k) = .ok (r k) := by
  have hfield : ∀ {d : S.Draft}, Filled blank ms d →
      ((∀ k, d.value? k = some (r k)) ↔ ∀ k, S.field k (S.given ms k) = .ok (r k)) := by
    intro d hfilled
    refine forall_congr' fun k => ?_
    have hk := hfilled k
    cases hg : S.given ms k with
    | none =>
      rw [hg] at hk
      have hblank : d k = none := hk
      cases hdef : S.default k <;> simp [Draft.value?, field, hblank, hdef]
    | some v =>
      rw [hg] at hk
      obtain ⟨-, x, hx, hdk⟩ := hk
      simp [Draft.value?, field, hdk, hx]
  have hsplit : S.ofJson (.obj ms) = ms.foldlM S.visit blank >>= S.complete := rfl
  rw [hsplit, Outcome.bind_eq_ok]
  apply Iff.intro
  · intro h
    obtain ⟨d, hfold, hcomplete⟩ := h
    obtain ⟨hdistinct, hfilled⟩ := foldlM_visit.1 hfold
    exact ⟨hdistinct, (hfield hfilled).1 (complete_eq_ok.1 hcomplete)⟩
  · intro h
    obtain ⟨hdistinct, hall⟩ := h
    obtain ⟨d, hfilled⟩ : ∃ d : S.Draft, Filled blank ms d := by
      refine ⟨fun k => if (S.given ms k).isSome then some (r k) else none, fun k => ?_⟩
      have hk := hall k
      cases hg : S.given ms k with
      | none => simp [hg, blank]
      | some v =>
        rw [hg] at hk
        exact ⟨rfl, r k, hk, by simp [hg]⟩
    exact ⟨d, foldlM_visit.2 ⟨hdistinct, hfilled⟩, complete_eq_ok.2 ((hfield hfilled).2 hall)⟩

/-! ## Order -/

variable (S)

def known (name : String) : Bool := (S.key? name).isSome

variable {S}

theorem key?_eq_none {name : String} (h : S.known name = false) : S.key? name = none := by
  simpa [known] using h

theorem givenKeys_withKeys : S.givenKeys (withKeys S.known ms) = S.givenKeys ms := by
  induction ms with
  | nil => rfl
  | cons m ms ih =>
    cases hm : S.known m.1 with
    | false => rw [withKeys_cons_neg hm, givenKeys_cons_none (key?_eq_none hm), ih]
    | true =>
      obtain ⟨k, hk⟩ := Option.isSome_iff_exists.1 hm
      rw [withKeys_cons_pos hm, givenKeys_cons_some hk, givenKeys_cons_some hk, ih]

/-- a name gives one field, so names are not repeated where fields are not -/
theorem Distinct.nodup_names (h : S.Distinct ms) : (names (withKeys S.known ms)).Nodup := by
  have hkeys : (names (withKeys S.known ms)).map S.key? = (S.givenKeys ms).map some := by
    clear h
    induction ms with
    | nil => rfl
    | cons m ms ih =>
      cases hm : S.known m.1 with
      | false => rw [withKeys_cons_neg hm, givenKeys_cons_none (key?_eq_none hm), ih]
      | true =>
        obtain ⟨k, hk⟩ := Option.isSome_iff_exists.1 hm
        rw [withKeys_cons_pos hm, givenKeys_cons_some hk, names, List.map_cons, List.map_cons, List.map_cons, hk]
        exact congrArg _ ih
  refine List.Nodup.of_map S.key? ?_
  rw [hkeys]
  exact h.map (Option.some_injective _)

theorem Distinct.of_perm (h : S.Distinct ms) (hperm : (withKeys S.known ms).Perm (withKeys S.known ms')) :
    S.Distinct ms' := by
  unfold Distinct at h ⊢
  rw [← givenKeys_withKeys] at h ⊢
  exact (hperm.filterMap _).nodup_iff.1 h

theorem given_eq_of_perm (h : S.Distinct ms) (hperm : (withKeys S.known ms).Perm (withKeys S.known ms')) :
    S.given ms k = S.given ms' k := by
  have hmem : ∀ {l : List (String × Json)} {name : String} {v : Json}, S.key? name = some k →
      ((name, v) ∈ l ↔ (name, v) ∈ withKeys S.known l) := by
    intro l name v hkey
    exact ⟨fun hl => List.mem_filter.2 ⟨hl, by simp [known, hkey]⟩, fun hl => (List.mem_filter.1 hl).1⟩
  refine Option.ext fun v => ?_
  rw [given_eq_some h, given_eq_some (h.of_perm hperm)]
  refine exists_congr fun name => and_congr_left fun hkey => ?_
  exact (hmem hkey).trans (hperm.mem_iff.trans (hmem hkey).symm)

/-- **The order of the members does not matter**, nor do those of unknown names. -/
theorem ofJson_of_perm (h : S.Distinct ms) (hperm : (withKeys S.known ms).Perm (withKeys S.known ms')) :
    S.ofJson (.obj ms') = .ok r ↔ S.ofJson (.obj ms) = .ok r := by
  rw [ofJson_obj, ofJson_obj]
  refine and_congr (iff_of_true (h.of_perm hperm) h) (forall_congr' fun k => ?_)
  rw [given_eq_of_perm h hperm]

theorem ofJson_ofMembers (h : S.Distinct ms) : S.ofJson (ofMembers ms) = .ok r ↔ S.ofJson (.obj ms) = .ok r :=
  ofJson_of_perm h (filter_sortMembers h.nodup_names).symm

theorem foldlM_withKeys : (withKeys S.known ms).foldlM S.visit d = ms.foldlM S.visit d := by
  induction ms generalizing d with
  | nil => rfl
  | cons m ms ih =>
    cases hm : S.known m.1 with
    | false =>
      rw [withKeys_cons_neg hm, List.foldlM_cons, visit_none (key?_eq_none hm), ih]
      rfl
    | true =>
      rw [withKeys_cons_pos hm, List.foldlM_cons, List.foldlM_cons]
      exact bind_congr fun _ => ih

/-- **Objects with the same values of all fields are the same record**, or have the same fault. -/
theorem ofJson_congr (h : ∀ name, S.known name = true → (ofMembers ms).get? name = (ofMembers ms').get? name) :
    S.ofJson (ofMembers ms) = S.ofJson (ofMembers ms') := by
  have hsplit : ∀ l, S.ofJson (ofMembers l) =
      (withKeys S.known (sortMembers l)).foldlM S.visit blank >>= S.complete := by
    intro l
    rw [foldlM_withKeys]
    rfl
  rw [hsplit, hsplit, (sortMembers_sorted ms).withKeys_eq (sortMembers_sorted ms') h]

/-! ## Names of fields -/

variable (S) in
def spellings (k : S.Key) : List String := S.name k :: S.aliases k

variable (S) in
/-- no name is that of two fields -/
def Unambiguous : Prop := ∀ k k' name, name ∈ S.spellings k → name ∈ S.spellings k' → k = k'

theorem Unambiguous.key?_eq_some (hS : S.Unambiguous) {name : String} :
    S.key? name = some k ↔ name ∈ S.spellings k := by
  have hspelled : ∀ k', (S.name k' = name || (S.aliases k').contains name) = true ↔ name ∈ S.spellings k' := by
    intro k'
    rw [Bool.or_eq_true, decide_eq_true_iff, List.contains_iff_mem, spellings, List.mem_cons, eq_comm]
  apply Iff.intro
  · intro h
    have hfound := List.find?_some (p := fun k => S.name k = name || (S.aliases k).contains name) h
    exact (hspelled k).1 hfound
  · intro h
    unfold key?
    cases hfind : S.keys.find? fun k' => S.name k' = name || (S.aliases k').contains name with
    | none => exact absurd ((hspelled k).2 h) (List.find?_eq_none.1 hfind k (S.mem_keys k))
    | some k' =>
      have hfound := List.find?_some (p := fun k' => S.name k' = name || (S.aliases k').contains name) hfind
      rw [hS k' k name ((hspelled k').1 hfound) h]

/-- a field that is not given twice is given by one name -/
theorem Distinct.name_eq (h : S.Distinct ms) {m' : String × Json} (hm : m ∈ ms) (hm' : m' ∈ ms)
    (hk : S.key? m.1 = some k) (hk' : S.key? m'.1 = some k) : m.1 = m'.1 := by
  have hsymm : Std.Symm fun a b : String × Json =>
      ∀ k, S.key? a.1 = some k → ∀ k', S.key? b.1 = some k' → k ≠ k' :=
    ⟨fun a b hab k hk k' hk' => (hab k' hk' k hk).symm⟩
  by_contra hne
  have hmembers : m ≠ m' := fun heq => hne (congrArg Prod.fst heq)
  exact (List.pairwise_filterMap.1 h).forall hm hm' hmembers k hk k hk' rfl

/-- where no name is repeated, no field is given twice exactly if none is given by two names -/
theorem Unambiguous.distinct_iff (hS : S.Unambiguous) (hms : (names ms).Nodup) : S.Distinct ms ↔
    ∀ k, ∀ name ∈ S.spellings k, ∀ name' ∈ S.spellings k, name ∈ names ms → name' ∈ names ms → name = name' := by
  apply Iff.intro
  · intro h k name hname name' hname' hmem hmem'
    obtain ⟨v, hv⟩ := mem_names.1 hmem
    obtain ⟨v', hv'⟩ := mem_names.1 hmem'
    exact h.name_eq hv hv' (hS.key?_eq_some.2 hname) (hS.key?_eq_some.2 hname')
  · intro h
    refine List.pairwise_filterMap.2 ((List.pairwise_map.1 hms).imp_of_mem fun hm hm' hne k hk k' hk' heq => ?_)
    subst heq
    have hname := hS.key?_eq_some.1 hk
    have hname' := hS.key?_eq_some.1 hk'
    exact hne (h k _ hname _ hname' (List.mem_map_of_mem hm) (List.mem_map_of_mem hm'))

theorem Unambiguous.given_eq (hS : S.Unambiguous) (hms : S.Distinct ms) :
    S.given ms k = (S.spellings k).findSome? fun name => ms.lookup name := by
  have hlookup : ∀ {name v}, name ∈ S.spellings k → ms.lookup name = some v → S.given ms k = some v :=
    fun hname hv => (given_eq_some hms).2 ⟨_, mem_of_lookup hv, hS.key?_eq_some.2 hname⟩
  cases hfind : (S.spellings k).findSome? fun name => ms.lookup name with
  | some v =>
    obtain ⟨name, hname, hv⟩ := List.exists_of_findSome?_eq_some hfind
    exact hlookup hname hv
  | none =>
    rw [given_eq_none, givenKeys, List.mem_filterMap]
    rintro ⟨m, hm, hk⟩
    have hnone := List.findSome?_eq_none_iff.1 hfind m.1 (hS.key?_eq_some.1 hk)
    exact lookup_eq_none.1 hnone (List.mem_map_of_mem hm)

variable (S) in
/-- a change of names that leaves every name with its field -/
def Respells (e : Equiv.Perm String) : Prop := ∀ name, S.key? (e name) = S.key? name

theorem respells_swap {a b : String} (h : S.key? a = S.key? b) : S.Respells (Equiv.swap a b) := by
  intro name
  rw [Equiv.swap_apply_def]
  split_ifs with ha hb
  · rw [ha, h]
  · rw [hb, h]
  · rfl

theorem Respells.givenKeys_rename {e : Equiv.Perm String} (h : S.Respells e) (ms : List (String × Json)) :
    S.givenKeys (rename e ms) = S.givenKeys ms := by
  rw [givenKeys, rename, List.filterMap_map]
  exact List.filterMap_congr fun m _ => h m.1

/-- **Fields may be respelled.** The record that an object holds does not change with it. -/
theorem Respells.ofJson_rename {e : Equiv.Perm String} (h : S.Respells e) (ms : List (String × Json)) :
    S.ofJson (ofMembers (rename e ms)) = .ok r ↔ S.ofJson (ofMembers ms) = .ok r := by
  have hrename : S.ofJson (.obj (rename e (sortMembers ms))) = S.ofJson (.obj (sortMembers ms)) := by
    have hvisit : ∀ (d : S.Draft) (m : String × Json), S.visit d (e m.1, m.2) = S.visit d m := by
      intro d m
      rw [visit, visit, h m.1]
    rw [Schema.ofJson, Schema.ofJson, rename, List.foldlM_map]
    simp only [hvisit]
  have hperm := (sortMembers_rename e ms).filter fun m => S.known m.1
  rw [ofMembers_eq, ofMembers_eq, ← hrename]
  apply Iff.intro
  · intro hr
    exact (ofJson_of_perm (ofJson_obj.1 hr).1 hperm).2 hr
  · intro hr
    exact (ofJson_of_perm (ofJson_obj.1 hr).1 hperm.symm).2 hr

/-! ## Fields with one name -/

theorem lookup_eq_find (name : String) :
    ms.lookup name = (ms.find? fun m => decide (m.1 = name)).map Prod.snd := by
  induction ms with
  | nil => rfl
  | cons m ms ih =>
    rw [lookup_cons_ite]
    by_cases h : name = m.1
    · simp [h]
    · simp [h, Ne.symm h, ih]

variable (S) in
/-- every field has one name, and no two have the same -/
structure SingleNames : Prop where
  aliases : ∀ k, S.aliases k = []
  injective : Function.Injective S.name

theorem SingleNames.mem_spellings (hS : S.SingleNames) {name : String} : name ∈ S.spellings k ↔ name = S.name k := by
  rw [spellings, hS.aliases, List.mem_singleton]

theorem SingleNames.unambiguous (hS : S.SingleNames) : S.Unambiguous :=
  fun _ _ _ hk hk' => hS.injective ((hS.mem_spellings.1 hk).symm.trans (hS.mem_spellings.1 hk'))

theorem SingleNames.key?_eq_some (hS : S.SingleNames) {name : String} : S.key? name = some k ↔ name = S.name k :=
  hS.unambiguous.key?_eq_some.trans hS.mem_spellings

theorem SingleNames.given_eq (hS : S.SingleNames) : S.given ms k = ms.lookup (S.name k) := by
  rw [given, lookup_eq_find]
  congr 2
  funext m
  exact decide_eq_decide.2 hS.key?_eq_some

theorem SingleNames.count_givenKeys (hS : S.SingleNames) :
    (S.givenKeys ms).count k = (names ms).count (S.name k) := by
  induction ms with
  | nil => rfl
  | cons m ms ih =>
    unfold names at ih ⊢
    rw [List.map_cons]
    cases hm : S.key? m.1 with
    | none =>
      have hne : m.1 ≠ S.name k := fun h => by simp [hS.key?_eq_some.2 h] at hm
      rw [givenKeys_cons_none hm, ih, List.count_cons_of_ne hne]
    | some k' =>
      rw [givenKeys_cons_some hm, hS.key?_eq_some.1 hm]
      by_cases hk : k' = k
      · subst hk
        rw [List.count_cons_self, List.count_cons_self, ih]
      · rw [List.count_cons_of_ne hk, List.count_cons_of_ne (hS.injective.ne hk), ih]

theorem SingleNames.distinct_iff (hS : S.SingleNames) : S.Distinct ms ↔ ∀ k, (names ms).count (S.name k) ≤ 1 := by
  rw [Distinct, List.nodup_iff_count_le_one]
  exact forall_congr' fun k => by rw [hS.count_givenKeys]

theorem SingleNames.ofJson_ofMembers (hS : S.SingleNames) : S.ofJson (ofMembers ms) = .ok r ↔
    ∀ k, S.field k ((ofMembers ms).get? (S.name k)) = .ok (r k) := by
  have hdistinct : S.Distinct (sortMembers ms) :=
    hS.distinct_iff.2 fun k => List.nodup_iff_count_le_one.1 (sortMembers_sorted ms).nodup _
  rw [ofMembers_eq, ofJson_obj, and_iff_right hdistinct]
  refine forall_congr' fun k => ?_
  rw [hS.given_eq]
  rfl

/-- **Objects that give the same for a field are the same there.** -/
theorem SingleNames.eq_of_get? (hS : S.SingleNames) {r' : S.Record} (hr : S.ofJson (ofMembers ms) = .ok r)
    (hr' : S.ofJson (ofMembers ms') = .ok r') (h : (ofMembers ms).get? (S.name k) = (ofMembers ms').get? (S.name k)) :
    r k = r' k := by
  have hk := hS.ofJson_ofMembers.1 hr k
  rw [h] at hk
  exact Except.ok.inj (hk.symm.trans (hS.ofJson_ofMembers.1 hr' k))

/-- **Objects that differ in one field** are records that differ there, if it is of its kind. -/
theorem SingleNames.ofJson_update (hS : S.SingleNames) {v : Json} {x : (S.kind k).Carrier}
    (h : S.ofJson (ofMembers ms) = .ok r) (hk : (ofMembers ms').get? (S.name k) = some v)
    (hx : (S.kind k).ofJson v = .ok x)
    (hothers : ∀ k', k' ≠ k → (ofMembers ms).get? (S.name k') = (ofMembers ms').get? (S.name k')) :
    S.ofJson (ofMembers ms') = .ok (Function.update r k x) := by
  refine hS.ofJson_ofMembers.2 fun k' => ?_
  by_cases heq : k' = k
  · subst heq
    rw [hk, Function.update_self]
    exact hx
  · rw [← hothers k' heq, Function.update_of_ne heq]
    exact hS.ofJson_ofMembers.1 h k'

/-- a field that is given anew has its new value, and the others stay -/
theorem SingleNames.ofJson_concat (hS : S.SingleNames) {v : Json} {x : (S.kind k).Carrier}
    (hx : (S.kind k).ofJson v = .ok x) (h : S.ofJson (ofMembers ms) = .ok r) :
    S.ofJson (ofMembers (ms ++ [(S.name k, v)])) = .ok (Function.update r k x) := by
  refine hS.ofJson_update h (get?_ofMembers_concat.trans (if_pos rfl)) hx fun k' hk' => ?_
  rw [get?_ofMembers_concat, if_neg (hS.injective.ne hk')]

end Schema

end PacketForwarder.Json
