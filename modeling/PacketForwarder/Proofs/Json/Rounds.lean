/-
The text of containers. `ItemsText` and `MembersText` are the grammar of what stands in an array and in an object, for
any grammar `val` of the values in them; one constructor for each round of the reader. They tie three things together:

- a reader that only gathers what it reads succeeds on exactly these texts (`gives_itemRounds`, `gives_memberRounds`);
- on such a text any other work on the members does what a fold over their list does (`MembersText.mirrors`);
- a value is a scalar, or an array or object of values one level down (`gives_value_succ`).

So every reader of an object can be judged by the list of its members in the order of the text, repeats included.
-/
import PacketForwarder.Proofs.Json.Reading

namespace PacketForwarder.Json

/-- a value whose head is all of it -/
def IsScalar (v : Json) : Prop := v.head ≠ .sequence ∧ v.head ≠ .map

namespace Reader

variable {α σ : Type} {val : Bytes → α → Bytes → Prop} {bs mid rest left : Bytes} {fuel n : Nat}

/-! ## Grammar -/

/-- the items of an array from the first one on, with the closing bracket -/
inductive ItemsText (val : Bytes → α → Bytes → Prop) : Bytes → List α → Bytes → Prop where
  | last {bs t rest : Bytes} {v : α} : val bs v t → Shows t ']' rest → ItemsText val bs [v] rest
  | more {bs t next rest : Bytes} {v : α} {vs : List α} : val bs v t → Shows t ',' next →
      (∀ tail, ¬Shows next ']' tail) → ItemsText val (next.dropWhile isBlank) vs rest → ItemsText val bs (v :: vs) rest

/-- what follows the bracket of an array -/
def ListText (val : Bytes → α → Bytes → Prop) (bs : Bytes) (vs : List α) (rest : Bytes) : Prop :=
  (vs = [] ∧ Shows bs ']' rest) ∨
    (¬Blank bs ∧ (∀ tail, ¬Shows bs ']' tail) ∧ ItemsText val (bs.dropWhile isBlank) vs rest)

/-- a member of an object, from behind the quote of its key -/
def MemberText (val : Bytes → α → Bytes → Prop) (bs : Bytes) (m : String × α) (rest : Bytes) : Prop :=
  ∃ t t', Gives string bs m.1 t ∧ Shows t ':' t' ∧ val t' m.2 rest

/-- the members of an object from behind the quote of the first key, with the closing brace -/
inductive MembersText (val : Bytes → α → Bytes → Prop) : Bytes → List (String × α) → Bytes → Prop where
  | last {bs t rest : Bytes} {m : String × α} : MemberText val bs m t → Shows t '\x7d' rest →
      MembersText val bs [m] rest
  | more {bs t next bs' rest : Bytes} {m : String × α} {ms : List (String × α)} : MemberText val bs m t →
      Shows t ',' next → Shows next '"' bs' → MembersText val bs' ms rest → MembersText val bs (m :: ms) rest

/-- what follows the brace of an object -/
def ObjectText (val : Bytes → α → Bytes → Prop) (bs : Bytes) (ms : List (String × α)) (rest : Bytes) : Prop :=
  (ms = [] ∧ Shows bs '\x7d' rest) ∨ ∃ t, Shows bs '"' t ∧ MembersText val t ms rest

/-! ## Rounds of the reader -/

section Rounds

variable {s s' : σ} {item : σ → Reader σ} {member : σ → String → Reader σ}

theorem gives_itemRounds_succ : Gives (itemRounds item (n + 1) s) bs s' rest ↔
    ∃ s₁ t, Gives (item s) bs s₁ t ∧ ((s' = s₁ ∧ Shows t ']' rest) ∨
      ∃ next, Shows t ',' next ∧ (∀ tail, ¬Shows next ']' tail) ∧
        Gives (itemRounds item n s₁) (next.dropWhile isBlank) s' rest) := by
  rw [itemRounds, gives_bind]
  refine exists_congr fun s₁ => exists_congr fun t => and_congr_right fun _ => ?_
  apply Iff.intro
  · intro hround
    rcases gives_peek_bind.1 hround with ⟨c, next, h, hf⟩ | ⟨-, hf⟩
    · split at hf
      · rename_i heq
        cases heq
        rcases gives_peek_bind.1 (gives_advance_cons.1 hf) with ⟨c', t', h', hf'⟩ | ⟨h', hf'⟩
        · split at hf'
          · cases gives_fail hf'
          · rename_i hne
            refine Or.inr ⟨next, h, fun tail htail => hne (congrArg some (h'.unique htail).1), ?_⟩
            rwa [h'.1]
        · refine Or.inr ⟨next, h, fun tail htail => htail.not_blank h', ?_⟩
          rwa [h']
      · rename_i heq
        cases heq
        obtain ⟨rfl, rfl⟩ := gives_advance_pure.1 hf
        exact Or.inl ⟨rfl, h⟩
      · cases gives_fail hf
      · cases gives_fail hf
    · cases gives_fail hf
  · intro h
    rcases h with ⟨rfl, h⟩ | ⟨next, h, hne, hgo⟩
    · exact h.peek_bind.2 (gives_advance_pure.2 ⟨rfl, rfl⟩)
    · refine h.peek_bind.2 (gives_advance_cons.2 ?_)
      refine gives_bind.2 ⟨_, _, gives_peek.2 ⟨rfl, rfl⟩, ?_⟩
      split
      · rename_i hclose
        rcases shows_or_blank next with ⟨c, t', h'⟩ | h'
        · rw [h'.1, List.head?_cons, Option.map_some, ofNat_toUInt8_of_lt h'.2] at hclose
          cases hclose
          exact absurd h' (hne t')
        · rw [h'] at hclose
          cases hclose
      · exact hgo

theorem gives_memberRounds_succ : Gives (memberRounds member (n + 1) s) bs s' rest ↔
    ∃ key t, Gives string (bs.drop 1) key t ∧ ∃ s₁ t', Gives (member s key) t s₁ t' ∧
      ((s' = s₁ ∧ Shows t' '\x7d' rest) ∨ ∃ next bs', Shows t' ',' next ∧ Shows next '"' bs' ∧
        Gives (memberRounds member n s₁) ('"'.toUInt8 :: bs') s' rest) := by
  rw [memberRounds, (gives_advance.2 rfl).bind_iff, gives_bind]
  refine exists_congr fun key => exists_congr fun t => and_congr_right fun _ => ?_
  rw [gives_bind]
  refine exists_congr fun s₁ => exists_congr fun t' => and_congr_right fun _ => ?_
  apply Iff.intro
  · intro hround
    rcases gives_peek_bind.1 hround with ⟨c, next, h, hf⟩ | ⟨-, hf⟩
    · split at hf
      · rename_i heq
        cases heq
        rcases gives_peek_bind.1 (gives_advance_cons.1 hf) with ⟨c', bs', h', hf'⟩ | ⟨-, hf'⟩
        · split at hf'
          · rename_i heq
            cases heq
            exact Or.inr ⟨next, bs', h, h', hf'⟩
          · cases gives_fail hf'
          · cases gives_fail hf'
          · cases gives_fail hf'
        · cases gives_fail hf'
      · rename_i heq
        cases heq
        obtain ⟨rfl, rfl⟩ := gives_advance_pure.1 hf
        exact Or.inl ⟨rfl, h⟩
      · cases gives_fail hf
      · cases gives_fail hf
    · cases gives_fail hf
  · intro h
    rcases h with ⟨rfl, h⟩ | ⟨next, bs', h, h', hgo⟩
    · exact h.peek_bind.2 (gives_advance_pure.2 ⟨rfl, rfl⟩)
    · exact h.peek_bind.2 (gives_advance_cons.2 (h'.peek_bind.2 hgo))

theorem gives_foldItems : Gives (foldItems fuel item s) bs s' rest ↔
    (s' = s ∧ Shows bs ']' rest) ∨ (¬Blank bs ∧ (∀ tail, ¬Shows bs ']' tail) ∧
      Gives (itemRounds item fuel s) (bs.dropWhile isBlank) s' rest) := by
  unfold foldItems
  apply Iff.intro
  · intro hfold
    rcases gives_peek_bind.1 hfold with ⟨c, t, h, hf⟩ | ⟨-, hf⟩
    · split at hf
      · rename_i heq
        cases heq
        obtain ⟨rfl, rfl⟩ := gives_advance_pure.1 hf
        exact Or.inl ⟨rfl, h⟩
      · cases gives_fail hf
      · rename_i hne heq
        cases heq
        refine Or.inr ⟨h.not_blank, fun tail htail => hne (h.unique htail).1, ?_⟩
        rwa [h.1]
    · cases gives_fail hf
  · intro h
    rcases h with ⟨rfl, h⟩ | ⟨hsome, hne, hgo⟩
    · exact h.peek_bind.2 (gives_advance_pure.2 ⟨rfl, rfl⟩)
    · rcases shows_or_blank bs with ⟨c, t, h⟩ | h
      · rw [h.1] at hgo
        refine h.peek_bind.2 ?_
        split
        · rename_i heq
          cases heq
          exact absurd h (hne t)
        · cases ‹some c = none›
        · exact hgo
      · exact absurd h hsome

theorem gives_foldMembers : Gives (foldMembers fuel member s) bs s' rest ↔
    (s' = s ∧ Shows bs '\x7d' rest) ∨
      ∃ t, Shows bs '"' t ∧ Gives (memberRounds member fuel s) ('"'.toUInt8 :: t) s' rest := by
  unfold foldMembers
  apply Iff.intro
  · intro hfold
    rcases gives_peek_bind.1 hfold with ⟨c, t, h, hf⟩ | ⟨-, hf⟩
    · split at hf
      · rename_i heq
        cases heq
        obtain ⟨rfl, rfl⟩ := gives_advance_pure.1 hf
        exact Or.inl ⟨rfl, h⟩
      · rename_i heq
        cases heq
        exact Or.inr ⟨t, h, hf⟩
      · cases gives_fail hf
      · cases gives_fail hf
    · cases gives_fail hf
  · intro h
    rcases h with ⟨rfl, h⟩ | ⟨t, h, hgo⟩
    · exact h.peek_bind.2 (gives_advance_pure.2 ⟨rfl, rfl⟩)
    · exact h.peek_bind.2 hgo

/-! ## Readers that only gather -/

/-- each round adds an item to what is gathered, and each item takes a round -/
theorem gives_itemRounds {r : Reader α} {g : σ → α → σ} :
    Gives (itemRounds (fun s => do return g s (← r)) n s) bs s' rest ↔
      ∃ vs, vs.length ≤ n ∧ ItemsText (Gives r) bs vs rest ∧ s' = vs.foldl g s := by
  induction n generalizing s bs with
  | zero =>
    refine iff_of_false gives_fail ?_
    intro h
    obtain ⟨vs, hlen, htext, -⟩ := h
    cases htext <;> cases hlen
  | succ n ih =>
    rw [gives_itemRounds_succ]
    apply Iff.intro
    · intro h
      obtain ⟨s₁, t, hitem, hround⟩ := h
      obtain ⟨v, t', hv, hpure⟩ := gives_bind.1 hitem
      obtain ⟨rfl, rfl⟩ := gives_pure.1 hpure
      rcases hround with ⟨rfl, hend⟩ | ⟨next, hcomma, hopen, hgo⟩
      · exact ⟨[v], by simp, .last hv hend, rfl⟩
      · obtain ⟨vs, hlen, htext, rfl⟩ := ih.1 hgo
        exact ⟨v :: vs, Nat.succ_le_succ hlen, .more hv hcomma hopen htext, rfl⟩
    · intro h
      obtain ⟨vs, hlen, htext, rfl⟩ := h
      cases htext with
      | last hv hend => exact ⟨_, _, hv.bind (gives_pure.2 ⟨rfl, rfl⟩), Or.inl ⟨rfl, hend⟩⟩
      | more hv hcomma hopen htext =>
        refine ⟨_, _, hv.bind (gives_pure.2 ⟨rfl, rfl⟩), Or.inr ⟨_, hcomma, hopen, ?_⟩⟩
        exact ih.2 ⟨_, Nat.le_of_succ_le_succ hlen, htext, rfl⟩

/-- each round adds a member to what is gathered, and each member takes a round -/
theorem gives_memberRounds {r : Reader α} {g : σ → String → α → σ} :
    Gives (memberRounds (fun s key => do colon; return g s key (← r)) n s) bs s' rest ↔
      ∃ ms, ms.length ≤ n ∧ MembersText (Gives r) (bs.drop 1) ms rest ∧
        s' = ms.foldl (fun s m => g s m.1 m.2) s := by
  induction n generalizing s bs with
  | zero =>
    refine iff_of_false gives_fail ?_
    intro h
    obtain ⟨ms, hlen, htext, -⟩ := h
    cases htext <;> cases hlen
  | succ n ih =>
    rw [gives_memberRounds_succ]
    apply Iff.intro
    · intro h
      obtain ⟨key, t, hkey, s₁, t', hmember, hround⟩ := h
      obtain ⟨_, t₁, hcolon, hvalue⟩ := gives_bind.1 hmember
      obtain ⟨v, t₂, hv, hpure⟩ := gives_bind.1 hvalue
      obtain ⟨rfl, rfl⟩ := gives_pure.1 hpure
      have hm : MemberText (Gives r) (bs.drop 1) (key, v) t₂ := ⟨t, t₁, hkey, gives_colon.1 hcolon, hv⟩
      rcases hround with ⟨rfl, hend⟩ | ⟨next, bs', hcomma, hquote, hgo⟩
      · exact ⟨[(key, v)], by simp, .last hm hend, rfl⟩
      · obtain ⟨ms, hlen, htext, rfl⟩ := ih.1 hgo
        exact ⟨(key, v) :: ms, Nat.succ_le_succ hlen, .more hm hcomma hquote htext, rfl⟩
    · intro h
      obtain ⟨ms, hlen, htext, rfl⟩ := h
      cases htext with
      | last hm hend =>
        obtain ⟨t, t₁, hkey, hcolon, hv⟩ := hm
        refine ⟨_, t, hkey, _, _, ?_, Or.inl ⟨rfl, hend⟩⟩
        exact (gives_colon.2 hcolon).bind (hv.bind (gives_pure.2 ⟨rfl, rfl⟩))
      | more hm hcomma hquote htext =>
        rename_i m ms
        obtain ⟨t, t₁, hkey, hcolon, hv⟩ := hm
        refine ⟨_, t, hkey, g s m.1 m.2, _, ?_, Or.inr ⟨_, _, hcomma, hquote, ?_⟩⟩
        · exact (gives_colon.2 hcolon).bind (hv.bind (gives_pure.2 ⟨rfl, rfl⟩))
        · exact ih.2 ⟨_, Nat.le_of_succ_le_succ hlen, htext, rfl⟩

theorem foldl_cons (vs : List α) : vs.foldl (fun acc v => v :: acc) [] = vs.reverse := by
  simp

theorem gives_gatherItems {r : Reader α} {vs : List α} :
    Gives (List.reverse <$> foldItems fuel (fun acc => do return (← r) :: acc) []) bs vs rest ↔
      vs.length ≤ fuel ∧ ListText (Gives r) bs vs rest := by
  rw [gives_map]
  apply Iff.intro
  · intro h
    obtain ⟨l, hfold, rfl⟩ := h
    rcases gives_foldItems.1 hfold with ⟨rfl, hend⟩ | ⟨hsome, hopen, hrounds⟩
    · exact ⟨Nat.zero_le _, Or.inl ⟨rfl, hend⟩⟩
    · obtain ⟨vs, hlen, htext, rfl⟩ := (gives_itemRounds (g := fun acc v => v :: acc)).1 hrounds
      rw [foldl_cons, List.reverse_reverse]
      exact ⟨hlen, Or.inr ⟨hsome, hopen, htext⟩⟩
  · intro h
    rcases h with ⟨hlen, ⟨rfl, hend⟩ | ⟨hsome, hopen, htext⟩⟩
    · exact ⟨[], gives_foldItems.2 (Or.inl ⟨rfl, hend⟩), rfl⟩
    · refine ⟨vs.reverse, gives_foldItems.2 (Or.inr ⟨hsome, hopen, ?_⟩), List.reverse_reverse vs⟩
      exact (gives_itemRounds (g := fun acc v => v :: acc)).2 ⟨vs, hlen, htext, (foldl_cons vs).symm⟩

theorem gives_gatherMembers {r : Reader α} {g : σ → String → α → σ} :
    Gives (foldMembers fuel (fun s key => do colon; return g s key (← r)) s) bs s' rest ↔
      ∃ ms, ms.length ≤ fuel ∧ ObjectText (Gives r) bs ms rest ∧ s' = ms.foldl (fun s m => g s m.1 m.2) s := by
  rw [gives_foldMembers]
  apply Iff.intro
  · intro h
    rcases h with ⟨rfl, hend⟩ | ⟨t, hquote, hrounds⟩
    · exact ⟨[], Nat.zero_le _, Or.inl ⟨rfl, hend⟩, rfl⟩
    · obtain ⟨ms, hlen, htext, rfl⟩ := gives_memberRounds.1 hrounds
      exact ⟨ms, hlen, Or.inr ⟨t, hquote, htext⟩, rfl⟩
  · intro h
    rcases h with ⟨ms, hlen, ⟨rfl, hend⟩ | ⟨t, hquote, htext⟩, rfl⟩
    · exact Or.inl ⟨rfl, hend⟩
    · exact Or.inr ⟨t, hquote, gives_memberRounds.2 ⟨ms, hlen, htext, rfl⟩⟩

/-! ## Any other work on the members -/

/-- **Members one by one are the fold over their list.** -/
theorem MembersText.mirrors {f : σ → String × α → Except Fault σ} {ms : List (String × α)}
    (hmember : ∀ s, ∀ m ∈ ms, ∀ t t' t'', Shows t ':' t' → val t' m.2 t'' → Mirrors (member s m.1) t (f s m) t'')
    (h : MembersText val bs ms rest) (hlen : ms.length ≤ n) (b : UInt8) :
    Mirrors (memberRounds member n s) (b :: bs) (ms.foldlM f s) rest := by
  induction h generalizing n s b with
  | last hm hend =>
    rename_i m
    obtain ⟨t, t₁, hkey, hcolon, hv⟩ := hm
    have hstep := hmember s m List.mem_cons_self t t₁ _ hcolon hv
    cases n with
    | zero => cases hlen
    | succ n =>
      intro s' left
      rw [gives_memberRounds_succ, List.foldlM_cons, Outcome.bind_eq_ok]
      apply Iff.intro
      · intro h'
        obtain ⟨key', t', hkey', s₁, t₂, hgives, hround⟩ := h'
        obtain ⟨rfl, rfl⟩ := hkey.unique hkey'
        obtain ⟨hf, rfl⟩ := (hstep s₁ t₂).1 hgives
        rcases hround with ⟨rfl, hend'⟩ | ⟨next, bs', hcomma, -⟩
        · exact ⟨⟨_, hf, rfl⟩, (hend'.unique hend).2⟩
        · exact absurd (hend.unique hcomma).1 (by decide)
      · intro h'
        obtain ⟨⟨s₁, hf, hnil⟩, rfl⟩ := h'
        cases hnil
        exact ⟨_, t, hkey, _, _, hstep.gives hf, Or.inl ⟨rfl, hend⟩⟩
  | more hm hcomma hquote htext ih =>
    rename_i m ms
    obtain ⟨t, t₁, hkey, hcolon, hv⟩ := hm
    have hstep := hmember s m List.mem_cons_self t t₁ _ hcolon hv
    have hrest := fun s m' hm' => hmember s m' (List.mem_cons_of_mem m hm')
    cases n with
    | zero => cases hlen
    | succ n =>
      intro s' left
      rw [gives_memberRounds_succ, List.foldlM_cons, Outcome.bind_eq_ok]
      apply Iff.intro
      · intro h'
        obtain ⟨key', t', hkey', s₁, t₂, hgives, hround⟩ := h'
        obtain ⟨rfl, rfl⟩ := hkey.unique hkey'
        obtain ⟨hf, rfl⟩ := (hstep s₁ t₂).1 hgives
        rcases hround with ⟨rfl, hend⟩ | ⟨next, bs', hcomma', hquote', hgo⟩
        · exact absurd (hcomma.unique hend).1 (by decide)
        · obtain ⟨-, rfl⟩ := hcomma.unique hcomma'
          obtain ⟨-, rfl⟩ := hquote.unique hquote'
          obtain ⟨hfold, hleft⟩ := (ih hrest (Nat.le_of_succ_le_succ hlen) _ s' left).1 hgo
          exact ⟨⟨s₁, hf, hfold⟩, hleft⟩
      · intro h'
        obtain ⟨⟨s₁, hf, hfold⟩, rfl⟩ := h'
        refine ⟨_, t, hkey, s₁, _, hstep.gives hf, Or.inr ⟨_, _, hcomma, hquote, ?_⟩⟩
        exact (ih hrest (Nat.le_of_succ_le_succ hlen) _).gives hfold

theorem ObjectText.mirrors {f : σ → String × α → Except Fault σ} {ms : List (String × α)}
    (hmember : ∀ s, ∀ m ∈ ms, ∀ t t' t'', Shows t ':' t' → val t' m.2 t'' → Mirrors (member s m.1) t (f s m) t'')
    (h : ObjectText val bs ms rest) (hlen : ms.length ≤ fuel) :
    Mirrors (foldMembers fuel member s) bs (ms.foldlM f s) rest := by
  intro s' left
  rw [gives_foldMembers]
  rcases h with ⟨rfl, hend⟩ | ⟨t, hquote, htext⟩
  · apply Iff.intro
    · intro h'
      rcases h' with ⟨rfl, hend'⟩ | ⟨t, hquote, -⟩
      · exact ⟨rfl, (hend'.unique hend).2⟩
      · exact absurd (hend.unique hquote).1 (by decide)
    · intro h'
      obtain ⟨hnil, rfl⟩ := h'
      cases hnil
      exact Or.inl ⟨rfl, hend⟩
  · rw [← htext.mirrors hmember hlen _ s' left]
    apply Iff.intro
    · intro h'
      rcases h' with ⟨-, hend⟩ | ⟨t', hquote', hgo⟩
      · exact absurd (hquote.unique hend).1 (by decide)
      · obtain ⟨-, rfl⟩ := hquote.unique hquote'
        exact hgo
    · intro hgo
      exact Or.inr ⟨t, hquote, hgo⟩

end Rounds

/-! ## Values -/

theorem gives_valueWith {items : Reader (List Json)} {members : Reader (List (String × Json))} {h : Head} {v : Json} :
    Gives (valueWith items members h) bs v rest ↔ (v.IsScalar ∧ h = v.head ∧ bs = rest) ∨
      (h = .sequence ∧ ∃ vs, Gives items bs vs rest ∧ v = .arr vs) ∨
      (h = .map ∧ ∃ ms, Gives members bs ms rest ∧ v = .obj ms) := by
  apply Iff.intro
  · intro hv
    cases h with
    | sequence =>
      obtain ⟨vs, t, hvs, hpure⟩ := gives_bind.1 hv
      obtain ⟨rfl, rfl⟩ := gives_pure.1 hpure
      exact Or.inr (Or.inl ⟨rfl, vs, hvs, rfl⟩)
    | map =>
      obtain ⟨ms, t, hms, hpure⟩ := gives_bind.1 hv
      obtain ⟨rfl, rfl⟩ := gives_pure.1 hpure
      exact Or.inr (Or.inr ⟨rfl, ms, hms, rfl⟩)
    | null | bool | int | float | str =>
      obtain ⟨rfl, rfl⟩ := gives_pure.1 hv
      exact Or.inl ⟨⟨nofun, nofun⟩, rfl, rfl⟩
  · intro h'
    rcases h' with ⟨⟨hseq, hmap⟩, rfl, rfl⟩ | ⟨rfl, vs, hvs, rfl⟩ | ⟨rfl, ms, hms, rfl⟩
    · cases v with
      | arr vs => exact absurd rfl hseq
      | obj ms => exact absurd rfl hmap
      | null | bool | int | float | str => exact gives_pure.2 ⟨rfl, rfl⟩
    · exact hvs.bind (gives_pure.2 ⟨rfl, rfl⟩)
    · exact hms.bind (gives_pure.2 ⟨rfl, rfl⟩)

/-- where no container may stand, a value is a scalar -/
theorem gives_value_zero {v : Json} : Gives (value fuel 0) bs v rest ↔ v.IsScalar ∧ Gives head bs v.head rest := by
  rw [value, gives_bind]
  apply Iff.intro
  · intro h
    obtain ⟨h, t, hhead, hwith⟩ := h
    rcases gives_valueWith.1 hwith with ⟨hscalar, rfl, rfl⟩ | ⟨-, vs, hvs, -⟩ | ⟨-, ms, hms, -⟩
    · exact ⟨hscalar, hhead⟩
    · cases gives_fail hvs
    · cases gives_fail hms
  · intro h
    obtain ⟨hscalar, hhead⟩ := h
    exact ⟨v.head, rest, hhead, gives_valueWith.2 (Or.inl ⟨hscalar, rfl, rfl⟩)⟩

/-- **A value is a scalar, an array of values or an object of values.** -/
theorem gives_value_succ {depth : Nat} {v : Json} : Gives (value fuel (depth + 1)) bs v rest ↔
    (v.IsScalar ∧ Gives head bs v.head rest) ∨
    (∃ t vs, Gives head bs .sequence t ∧ vs.length ≤ fuel ∧ ListText (Gives (value fuel depth)) t vs rest ∧
      v = .arr vs) ∨
    (∃ t ms, Gives head bs .map t ∧ ms.length ≤ fuel ∧ ObjectText (Gives (value fuel depth)) t ms rest ∧
      v = ofMembers ms) := by
  rw [value, gives_bind]
  apply Iff.intro
  · intro h
    obtain ⟨h, t, hhead, hwith⟩ := h
    rcases gives_valueWith.1 hwith with ⟨hscalar, rfl, rfl⟩ | ⟨rfl, vs, hvs, rfl⟩ | ⟨rfl, ms, hms, rfl⟩
    · exact Or.inl ⟨hscalar, hhead⟩
    · obtain ⟨hlen, htext⟩ := gives_gatherItems.1 hvs
      exact Or.inr (Or.inl ⟨t, vs, hhead, hlen, htext, rfl⟩)
    · obtain ⟨l, hlen, htext, rfl⟩ := gives_gatherMembers.1 hms
      exact Or.inr (Or.inr ⟨t, l, hhead, hlen, htext, rfl⟩)
  · intro h
    rcases h with ⟨hscalar, hhead⟩ | ⟨t, vs, hhead, hlen, htext, rfl⟩ | ⟨t, ms, hhead, hlen, htext, rfl⟩
    · exact ⟨v.head, rest, hhead, gives_valueWith.2 (Or.inl ⟨hscalar, rfl, rfl⟩)⟩
    · exact ⟨_, t, hhead, gives_valueWith.2 (Or.inr (Or.inl ⟨rfl, vs, gives_gatherItems.2 ⟨hlen, htext⟩, rfl⟩))⟩
    · refine ⟨_, t, hhead, gives_valueWith.2 (Or.inr (Or.inr ⟨rfl, _, ?_, rfl⟩))⟩
      exact gives_gatherMembers.2 ⟨ms, hlen, htext, rfl⟩

end Reader

end PacketForwarder.Json
