/-
The two ways to a record agree. A record is read from text member by member in the order of the text, where unknown
members are passed over unread; or the text is read as a value first, whose members stand in the order of their keys,
and then that is judged. For a text that spells a value at all:

- a field holds the same in both (`mirrors_kind`), and so does a member (`mirrors_readMember`);
- an object read from text is judged by its members as they stand there, `rootMembers` (`mirrors_members`);
- an array is judged by its items (`mirrors_readItems`);
- so the text gives a record exactly if no field is given twice and the value gives it (`ofText_eq_ok_iff`).

Which fault is reported may differ. The fields are those of any schema without a choice of names.
-/
import PacketForwarder.Proofs.Json.Record
import PacketForwarder.Proofs.Json.Skipping

namespace PacketForwarder.Json

open Reader

/-! ## Fields -/

section Fields

variable {α : Type} {bs t t' rest : Bytes} {fuel depth : Nat} {v : Json}

/-- every value has a head, and a scalar is no more than that -/
theorem gives_head_of_value (hv : Gives (value fuel depth) bs v rest) :
    ∃ t, Gives Reader.head bs v.head t ∧ (v.IsScalar → t = rest) := by
  cases depth with
  | zero =>
    obtain ⟨-, hhead⟩ := gives_value_zero.1 hv
    exact ⟨rest, hhead, fun _ => rfl⟩
  | succ depth =>
    rcases gives_value_succ.1 hv with ⟨-, hhead⟩ | ⟨t, vs, hhead, -, -, rfl⟩ | ⟨t, ms, hhead, -, -, rfl⟩
    · exact ⟨rest, hhead, fun _ => rfl⟩
    · exact ⟨t, hhead, fun h => absurd rfl h.1⟩
    · exact ⟨t, hhead, fun h => absurd rfl h.2⟩

/-- what is judged by its head is judged alike, where no container is accepted -/
theorem mirrors_head {j : Head → Except Fault α} (hseq : ∃ e, j .sequence = .error e) (hmap : ∃ e, j .map = .error e)
    (hv : Gives (value fuel depth) bs v rest) : Mirrors (do j (← Reader.head)) bs (j v.head) rest := by
  obtain ⟨t, hhead, hscalar⟩ := gives_head_of_value hv
  by_cases h : v.IsScalar
  · obtain rfl := hscalar h
    exact hhead.mirrors.bind fun a ha => Except.ok.inj ha ▸ mirrors_lift _
  · have hbad : ∃ e, j v.head = .error e := by
      by_cases hs : v.head = .sequence
      · rwa [hs]
      · have hm : v.head = .map := by
          by_contra hm
          exact h ⟨hs, hm⟩
        rwa [hm]
    obtain ⟨e, he⟩ := hbad
    rw [he]
    refine mirrors_error fun a left hgives => ?_
    obtain ⟨hj, -⟩ := gives_lift.1 (hhead.bind_iff.1 hgives)
    rw [he] at hj
    cases hj

theorem judge_sequence (kind : Scalar) : ∃ e, kind.judge .sequence = .error e := by
  cases kind <;> exact ⟨_, rfl⟩

theorem judge_map (kind : Scalar) : ∃ e, kind.judge .map = .error e := by
  cases kind <;> exact ⟨_, rfl⟩

theorem judgeOptional_of_error {kind : Scalar} {h : Head} (hne : h ≠ .null) (he : ∃ e, kind.judge h = .error e) :
    ∃ e, Kind.judgeOptional kind h = .error e := by
  obtain ⟨e, he⟩ := he
  refine ⟨e, ?_⟩
  rw [Kind.judgeOptional, if_neg hne, he]
  rfl

/-- **A field holds the same, read from text or taken from a value.** -/
theorem mirrors_kind {kind : Kind} (hkind : ∀ names, kind ≠ .choice names)
    (hv : Gives (value fuel depth) bs v rest) : Mirrors (kind.read fuel depth) bs (kind.ofJson v) rest := by
  cases kind with
  | scalar kind => exact mirrors_head (judge_sequence kind) (judge_map kind) hv
  | optional kind =>
    exact mirrors_head (judgeOptional_of_error (by decide) (judge_sequence kind))
      (judgeOptional_of_error (by decide) (judge_map kind)) hv
  | any => exact hv.mirrors
  | choice names => exact absurd rfl (hkind names)

end Fields

theorem length_membersText {α : Type} {val : Bytes → α → Bytes → Prop} {bs rest : Bytes} {ms : List (String × α)}
    (hval : ∀ {bs v rest}, val bs v rest → rest.length ≤ bs.length) (h : MembersText val bs ms rest) :
    ms.length ≤ bs.length := by
  induction h with
  | last hm hend =>
    obtain ⟨t, t', hkey, -, -⟩ := hm
    have hlt := length_string hkey
    simp only [List.length_cons, List.length_nil]
    omega
  | more hm hcomma hquote htext ih =>
    obtain ⟨t, t', hkey, hcolon, hv⟩ := hm
    have h1 := length_string hkey
    have h2 := hcolon.length_lt
    have h3 := hval hv
    have h4 := hcomma.length_lt
    have h5 := hquote.length_lt
    rw [List.length_cons]
    omega

namespace Schema

variable {S : Schema} {bs t t' rest : Bytes} {fuel n place : Nat} {v : Json} {d : S.Draft} {ms : List (String × Json)}

variable (S) in
def Unchosen : Prop := ∀ k names, S.kind k ≠ .choice names

/-! ## Objects -/

/-- **A member does the same.** -/
theorem mirrors_readMember (hS : S.Unchosen) {name : String} (hcolon : Shows t ':' t')
    (hv : Gives (value fuel fieldDepth) t' v rest) (hfuel : t'.length ≤ fuel) :
    Mirrors (S.readMember fuel d name) t (S.visit d (name, v)) rest := by
  unfold readMember visit
  cases hk : S.key? name with
  | none =>
    have hskip := gives_skipValue (skips_value hv) hfuel
    exact (gives_colon.2 hcolon).mirrors_bind (hskip.mirrors_bind (gives_pure.2 ⟨rfl, rfl⟩).mirrors)
  | some k =>
    dsimp only
    by_cases hd : (d k).isSome = true
    · rw [if_pos hd, if_pos hd]
      exact mirrors_throw_bind
    · rw [if_neg hd, if_neg hd]
      exact (gives_colon.2 hcolon).mirrors_bind (mirrors_kind (hS k) hv).map

/-- members are read within the bytes of their object -/
theorem bounded_members {α : Type} {val : Bytes → α → Bytes → Prop} {ms : List (String × α)}
    (hval : ∀ {bs v rest}, val bs v rest → rest.length ≤ bs.length) (h : MembersText val bs ms rest)
    (hn : bs.length ≤ n) : MembersText (fun bs v rest => val bs v rest ∧ bs.length ≤ n) bs ms rest := by
  induction h with
  | last hm hend =>
    obtain ⟨t, t', hkey, hcolon, hv⟩ := hm
    have h1 := length_string hkey
    have h2 := hcolon.length_lt
    exact .last ⟨t, t', hkey, hcolon, hv, by omega⟩ hend
  | more hm hcomma hquote htext ih =>
    obtain ⟨t, t', hkey, hcolon, hv⟩ := hm
    have h1 := length_string hkey
    have h2 := hcolon.length_lt
    have h3 := hval hv
    have h4 := hcomma.length_lt
    have h5 := hquote.length_lt
    exact .more ⟨t, t', hkey, hcolon, hv, by omega⟩ hcomma hquote (ih (by omega))

/-- **The members of an object in the order of the text are visited as they are read.** -/
theorem mirrors_members (hS : S.Unchosen) (htext : ObjectText (Gives (value fuel fieldDepth)) bs ms rest)
    (hlen : ms.length ≤ fuel) (hfuel : bs.length ≤ fuel) :
    Mirrors (foldMembers fuel (S.readMember fuel) d) bs (ms.foldlM S.visit d) rest := by
  have hobject :
      ObjectText (fun bs v rest => Gives (value fuel fieldDepth) bs v rest ∧ bs.length ≤ fuel) bs ms rest := by
    refine htext.imp_right ?_
    intro h
    obtain ⟨t, hquote, hmembers⟩ := h
    have hlt := hquote.length_lt
    exact ⟨t, hquote, bounded_members (fun hv => (skips_value hv).length_lt.le) hmembers (by omega)⟩
  refine hobject.mirrors ?_ hlen
  intro d m _ t t' t'' hcolon hv
  exact mirrors_readMember hS hcolon hv.1 hv.2

/-! ## Arrays -/

/-- the items that are left, before the first one or after another -/
def ItemsLeft (fuel : Nat) (first : Bool) (bs : Bytes) (vs : List Json) (rest : Bytes) : Prop :=
  (vs = [] ∧ Shows bs ']' rest) ∨ ((∀ tail, ¬Shows bs ']' tail) ∧
    ∃ t, Gives (hasItem first) bs true t ∧ ItemsText (Gives (value fuel fieldDepth)) t vs rest)

theorem gives_hasItem_end {first : Bool} (h : Shows bs ']' rest) :
    Gives (hasItem first) bs false (']'.toUInt8 :: rest) :=
  h.peek_bind.2 (gives_pure.2 ⟨rfl, rfl⟩)

theorem gives_hasItem_first (hsome : ¬Blank bs) (hopen : ∀ tail, ¬Shows bs ']' tail) :
    Gives (hasItem true) bs true (bs.dropWhile isBlank) := by
  rcases shows_or_blank bs with ⟨c, t, h⟩ | h
  · refine h.peek_bind.2 ?_
    rw [h.1]
    split
    · cases ‹some c = none›
    · rename_i heq
      cases heq
      exact absurd h (hopen t)
    · exact gives_pure.2 ⟨rfl, rfl⟩
    · exact gives_pure.2 ⟨rfl, rfl⟩
  · exact absurd h hsome

theorem gives_hasItem_next (hcomma : Shows bs ',' t) (hsome : ¬Blank t) (hopen : ∀ tail, ¬Shows t ']' tail) :
    Gives (hasItem false) bs true (t.dropWhile isBlank) := by
  refine hcomma.peek_bind.2 ?_
  rcases shows_or_blank t with ⟨c, t', h⟩ | h
  · refine gives_advance_cons.2 (h.peek_bind.2 ?_)
    rw [h.1]
    split
    · cases ‹some c = none›
    · rename_i heq
      cases heq
      exact absurd h (hopen t')
    · exact gives_pure.2 ⟨rfl, rfl⟩
  · exact absurd h hsome

theorem gives_closeItems : Gives closeItems bs () rest ↔ Shows bs ']' rest := by
  apply Iff.intro
  · intro hclose
    rcases gives_peek_bind.1 hclose with ⟨c, t, h, hf⟩ | ⟨-, hf⟩
    · split at hf
      · cases ‹some c = none›
      · rename_i heq
        cases heq
        obtain rfl := gives_advance.1 hf
        exact h
      · rcases gives_peek_bind.1 (gives_advance_cons.1 hf) with ⟨c', t', -, hf'⟩ | ⟨-, hf'⟩
        · split at hf' <;> cases gives_fail hf'
        · cases gives_fail hf'
      · cases gives_fail hf
    · cases gives_fail hf
  · intro h
    exact h.peek_bind.2 (gives_advance.2 rfl)

theorem items_uncons {vs : List Json} (h : ItemsText (Gives (value fuel fieldDepth)) bs vs rest) :
    ∃ v vs' t, vs = v :: vs' ∧ Gives (value fuel fieldDepth) bs v t ∧ ItemsLeft fuel false t vs' rest := by
  cases h with
  | last hv hend => exact ⟨_, [], _, rfl, hv, Or.inl ⟨rfl, hend⟩⟩
  | more hv hcomma hopen htext =>
    rename_i next v vs
    refine ⟨v, vs, _, rfl, hv, Or.inr ⟨fun tail htail => absurd (hcomma.unique htail).1 (by decide), _, ?_, htext⟩⟩
    refine gives_hasItem_next hcomma (fun hblank => ?_) hopen
    have hsome : ∃ v t, Gives (value fuel fieldDepth) (next.dropWhile isBlank) v t := by
      cases htext with
      | last hv _ | more hv _ _ _ => exact ⟨_, _, hv⟩
    obtain ⟨v', t', hv'⟩ := hsome
    have hlt := (skips_value hv').length_lt
    rw [hblank] at hlt
    cases hlt

theorem itemsLeft_of_list {vs : List Json} (h : ListText (Gives (value fuel fieldDepth)) bs vs rest) :
    ItemsLeft fuel true bs vs rest := by
  rcases h with ⟨rfl, hend⟩ | ⟨hsome, hopen, htext⟩
  · exact Or.inl ⟨rfl, hend⟩
  · exact Or.inr ⟨hopen, _, gives_hasItem_first hsome hopen, htext⟩

def finishItems (d : S.Draft) : Reader S.Record := do
  let r ← S.complete d
  closeItems
  return r

theorem mirrors_finishItems (hend : Shows bs ']' rest) : Mirrors (finishItems d) bs (S.complete d) rest := by
  have hclose : ∀ r : S.Record, Mirrors (do closeItems; return r) bs (.ok r) rest := by
    intro r
    exact (gives_closeItems.2 hend).mirrors_bind (gives_pure.2 ⟨rfl, rfl⟩).mirrors
  have h : Mirrors (finishItems d) bs (S.complete d >>= pure) rest := (mirrors_lift _).bind fun r _ => hclose r
  rwa [bind_pure] at h

theorem not_gives_finishItems {r : S.Record} (hopen : ∀ tail, ¬Shows bs ']' tail) :
    ¬Gives (finishItems d) bs r rest := by
  intro h
  obtain ⟨r', t, hlift, hclose⟩ := gives_bind.1 h
  obtain ⟨-, rfl⟩ := gives_lift.1 hlift
  obtain ⟨_, t', hclose, -⟩ := gives_bind.1 hclose
  exact hopen t' (gives_closeItems.1 hclose)

/-- **The items of an array are taken as they are read.** -/
theorem mirrors_readItems (hS : S.Unchosen) {ks : List S.Key} {vs : List Json}
    (h : ItemsLeft fuel (decide (place = 0)) bs vs rest) :
    Mirrors (S.readItems fuel place d ks >>= finishItems) bs (S.visitItems n place d ks vs >>= S.complete) rest := by
  induction ks generalizing vs place bs d with
  | nil =>
    rcases h with ⟨rfl, hend⟩ | ⟨hopen, t, -, htext⟩
    · exact mirrors_finishItems hend
    · obtain ⟨v, vs', -, rfl, -⟩ := items_uncons htext
      exact mirrors_error fun r left hgives => not_gives_finishItems hopen hgives
  | cons k ks ih =>
    have hnext : decide (place + 1 = 0) = false := rfl
    unfold readItems
    rw [bind_assoc]
    rcases h with ⟨rfl, hend⟩ | ⟨-, t, hitem, htext⟩
    · refine (gives_hasItem_end hend).mirrors_bind ?_
      unfold visitItems
      simp only [Bool.false_eq_true, ↓reduceIte]
      split_ifs
      · refine ih (Or.inl ⟨rfl, ?_⟩)
        exact shows_cons (by decide) (by decide)
      · exact mirrors_throw_bind
    · obtain ⟨v, vs', mid, rfl, hv, hleft⟩ := items_uncons htext
      refine hitem.mirrors_bind ?_
      unfold visitItems
      simp only [↓reduceIte, bind_assoc]
      exact (mirrors_kind (hS k) hv).bind fun field _ => ih hleft

/-! ## Whole texts -/

theorem gives_run' {α : Type} {r : Reader α} {a : α} : r.run' bs = .ok a ↔ ∃ rest, Gives r bs a rest := by
  unfold Gives StateT.run'
  rw [Outcome.map_eq_ok]
  apply Iff.intro
  · intro h
    obtain ⟨⟨a, rest⟩, h, rfl⟩ := h
    exact ⟨rest, h⟩
  · intro h
    obtain ⟨rest, h⟩ := h
    exact ⟨(a, rest), h, rfl⟩

theorem gives_whole {α : Type} {r : Reader α} {a : α} :
    (do let a ← r; finish; return a : Reader α).run' bs = .ok a ↔ ∃ rest, Gives r bs a rest ∧ Blank rest := by
  rw [gives_run']
  apply Iff.intro
  · intro h
    obtain ⟨rest, h⟩ := h
    obtain ⟨a', t, hr, h⟩ := gives_bind.1 h
    obtain ⟨_, t', hfinish, hpure⟩ := gives_bind.1 h
    obtain ⟨rfl, rfl⟩ := gives_pure.1 hpure
    exact ⟨t, hr, (gives_finish.1 hfinish).1⟩
  · intro h
    obtain ⟨rest, hr, hblank⟩ := h
    exact ⟨[], hr.bind ((gives_finish.2 ⟨hblank, rfl⟩).bind (gives_pure.2 ⟨rfl, rfl⟩))⟩

end Schema

/-- The members of the object that a text spells, in the order of the text and with repeats. A text that spells another
value has none. -/
def rootMembers (text : Bytes) : List (String × Json) :=
  ((do
    match ← Reader.head with
    | .map =>
      List.reverse <$> foldMembers text.length (fun acc key => do
        colon
        return (key, ← value text.length Schema.fieldDepth) :: acc) []
    | _ => return [] : Reader (List (String × Json))).run' text).toOption.getD []

section Root

variable {text t rest : Bytes} {v : Json} {h : Head} {ms : List (String × Json)}

theorem rootMembers_object (hhead : Gives Reader.head text .map t) (hlen : ms.length ≤ text.length)
    (htext : ObjectText (Gives (value text.length Schema.fieldDepth)) t ms rest) : rootMembers text = ms := by
  have hgather := (gives_gatherMembers (g := fun acc key v => (key, v) :: acc) (s := [])).2 ⟨ms, hlen, htext, rfl⟩
  have hreverse : (ms.foldl (fun acc m => (m.1, m.2) :: acc) []).reverse = ms := by
    rw [foldl_cons ms, List.reverse_reverse]
  rw [rootMembers, Outcome.toOption_eq_some.2 (Schema.gives_run'.2 ⟨rest, hhead.bind (gives_map.2 ⟨_, hgather, rfl⟩)⟩)]
  exact hreverse

theorem rootMembers_other (hhead : Gives Reader.head text h t) (hne : h ≠ .map) : rootMembers text = [] := by
  rw [rootMembers, Outcome.toOption_eq_some.2 (Schema.gives_run'.2 ⟨t, hhead.bind ?_⟩)]
  · rfl
  · split
    · exact absurd rfl hne
    · exact gives_pure.2 ⟨rfl, rfl⟩

theorem parse_eq_ok : parse text = .ok v ↔ ∃ rest, Gives (value text.length nestingLimit) text v rest ∧ Blank rest :=
  Schema.gives_whole

/-- **What an object holds**: of repeated keys the last value counts, and the keys are in order. -/
theorem parse_object {l : List (String × Json)} (h : parse text = .ok (.obj l)) :
    l = sortMembers (rootMembers text) := by
  obtain ⟨rest, hv, -⟩ := parse_eq_ok.1 h
  rcases gives_value_succ.1 hv with ⟨hscalar, -⟩ | ⟨t, vs, -, -, -, heq⟩ | ⟨t, ms, hhead, hlen, htext, heq⟩
  · exact absurd rfl hscalar.2
  · cases heq
  · rw [rootMembers_object hhead hlen htext]
    exact Json.obj.inj heq

end Root

namespace Schema

variable {S : Schema} {text : Bytes} {v : Json} {r : S.Record}

/-- **The two ways agree.** A text that spells a value gives a record exactly if it gives no field twice and the value
holds the record. -/
theorem ofText_eq_ok_iff (hS : S.Unchosen) (h : parse text = .ok v) :
    S.ofText text = .ok r ↔ S.Distinct (rootMembers text) ∧ S.ofJson v = .ok r := by
  obtain ⟨rest, hv, hblank⟩ := parse_eq_ok.1 h
  have hread : ∀ {x : Except Fault S.Record}, Mirrors (S.read text.length) text x rest →
      (S.ofText text = .ok r ↔ x = .ok r) := by
    intro x hmirrors
    refine gives_whole.trans ?_
    apply Iff.intro
    · intro h'
      obtain ⟨rest', hgives, -⟩ := h'
      exact ((hmirrors r rest').1 hgives).1
    · rintro rfl
      exact ⟨rest, hmirrors.gives rfl, hblank⟩
  have hnone : S.Distinct [] := List.nodup_nil
  rcases gives_value_succ.1 hv with ⟨hscalar, hhead⟩ | ⟨t, vs, hhead, -, htext, rfl⟩ | ⟨t, ms, hhead, hlen, htext, rfl⟩
  · rw [rootMembers_other hhead hscalar.2, and_iff_right hnone]
    refine hread (hhead.mirrors_bind ?_)
    cases v with
    | arr vs => exact absurd rfl hscalar.1
    | obj ms => exact absurd rfl hscalar.2
    | null | bool | int | float | str => exact mirrors_error fun r left hgives => gives_throw hgives
  · rw [rootMembers_other hhead (by decide), and_iff_right hnone]
    refine hread (hhead.mirrors_bind ?_)
    exact mirrors_readItems hS (itemsLeft_of_list htext)
  · rw [rootMembers_object hhead hlen htext]
    have hlt := length_head hhead
    have hobject : Mirrors (S.read text.length) text (S.ofJson (.obj ms)) rest := by
      refine hhead.mirrors_bind ?_
      exact (mirrors_members hS htext hlen hlt.le).bind fun d _ => mirrors_lift _
    rw [hread hobject]
    apply Iff.intro
    · intro hms
      have hdistinct := (ofJson_obj.1 hms).1
      exact ⟨hdistinct, (ofJson_ofMembers hdistinct).2 hms⟩
    · intro h'
      obtain ⟨hdistinct, hms⟩ := h'
      exact (ofJson_ofMembers hdistinct).1 hms

end Schema

end PacketForwarder.Json
