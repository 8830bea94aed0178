/-
Objects whose values need not be readable. A number in text may be beyond the greatest double: it can be passed over but
not read, so a reader that knows its key refuses what another one accepts. Where each value of an object is known to be
read as something or to be refused (`Reads`),

- the text is a value exactly if every member is one (`parse_reads`);
- it is a record exactly if the members are, where those of unknown names need not be readable (`ofText_reads`).
-/
import PacketForwarder.Proofs.Json.TwoReaders
import PacketForwarder.Proofs.Json.Written

namespace PacketForwarder.Json

open Reader

variable {bs t t' text rest left : Bytes} {fuel depth n : Nat} {v : Json} {ms : List (String × Option Json)}
  {vs : List (String × Json)}

/-! ## As a value -/

/-- a text that is one value -/
theorem parse_alone {o : Option Json} (h : Reads text o []) : (parse text).toOption = o := by
  refine Option.ext fun v => ?_
  rw [Outcome.toOption_eq_some, parse_eq_ok]
  apply Iff.intro
  · intro hparse
    obtain ⟨rest, hv, -⟩ := hparse
    exact (h.gives.1 hv).1
  · intro ho
    exact ⟨[], h.gives.2 ⟨ho, rfl⟩, rfl⟩

/-- the members that are read, if each is -/
def Readable (ms : List (String × Option Json)) (vs : List (String × Json)) : Prop :=
  ms = vs.map fun m => (m.1, some m.2)

theorem Readable.names_eq (h : Readable ms vs) : names ms = names vs := by
  unfold Readable at h
  rw [h, names, List.map_map]
  rfl

theorem memberText_reads {m : String × Option Json} {m' : String × Json} (hm : MemberText Reads bs m rest) :
    MemberText (Gives (value fuel depth)) bs m' left ↔ m = (m'.1, some m'.2) ∧ rest = left := by
  obtain ⟨t, t', hkey, hcolon, hv⟩ := hm
  apply Iff.intro
  · intro hm'
    obtain ⟨u, u', hkey', hcolon', hv'⟩ := hm'
    obtain ⟨hname, rfl⟩ := hkey.unique hkey'
    obtain ⟨-, rfl⟩ := hcolon.unique hcolon'
    obtain ⟨ho, hleft⟩ := hv.gives.1 hv'
    exact ⟨Prod.ext hname ho, hleft⟩
  · intro h
    obtain ⟨rfl, rfl⟩ := h
    exact ⟨t, t', hkey, hcolon, hv.gives.2 ⟨rfl, rfl⟩⟩

theorem membersText_reads (h : MembersText Reads bs ms rest) :
    MembersText (Gives (value fuel depth)) bs vs left ↔ Readable ms vs ∧ rest = left := by
  unfold Readable
  induction h generalizing vs left with
  | last hm hend =>
    apply Iff.intro
    · intro htext
      cases htext with
      | last hm' hend' =>
        obtain ⟨hmember, rfl⟩ := (memberText_reads hm).1 hm'
        exact ⟨congrArg (fun m => [m]) hmember, (hend.unique hend').2⟩
      | more hm' hcomma _ _ =>
        obtain ⟨-, rfl⟩ := (memberText_reads hm).1 hm'
        exact absurd (hend.unique hcomma).1 (by decide)
    · intro h'
      obtain ⟨hms, rfl⟩ := h'
      cases vs with
      | nil => cases hms
      | cons m vs =>
        obtain ⟨hmember, hnil⟩ := List.cons.inj hms
        obtain rfl := List.map_eq_nil_iff.1 hnil.symm
        exact .last ((memberText_reads hm).2 ⟨hmember, rfl⟩) hend
  | more hm hcomma hquote htext ih =>
    apply Iff.intro
    · intro htext'
      cases htext' with
      | last hm' hend =>
        obtain ⟨-, rfl⟩ := (memberText_reads hm).1 hm'
        exact absurd (hcomma.unique hend).1 (by decide)
      | more hm' hcomma' hquote' htext' =>
        obtain ⟨hmember, rfl⟩ := (memberText_reads hm).1 hm'
        obtain ⟨-, rfl⟩ := hcomma.unique hcomma'
        obtain ⟨-, rfl⟩ := hquote.unique hquote'
        obtain ⟨hms, hleft⟩ := ih.1 htext'
        exact ⟨congrArg₂ List.cons hmember hms, hleft⟩
    · intro h'
      obtain ⟨hms, rfl⟩ := h'
      cases vs with
      | nil => cases hms
      | cons m vs =>
        obtain ⟨hmember, hrest⟩ := List.cons.inj hms
        exact .more ((memberText_reads hm).2 ⟨hmember, rfl⟩) hcomma hquote (ih.2 ⟨hrest, rfl⟩)

/-- the text of an object with members, each read or refused -/
def RootReads (text : Bytes) (ms : List (String × Option Json)) : Prop :=
  ∃ t t' rest, Gives Reader.head text .map t ∧ Shows t '"' t' ∧ MembersText Reads t' ms rest ∧ Blank rest

theorem RootReads.length_le (h : RootReads text ms) : ms.length ≤ text.length := by
  obtain ⟨t, t', rest, hhead, hquote, htext, -⟩ := h
  have h1 := length_membersText (fun hv => hv.skips.length_lt.le) htext
  have h2 := hquote.length_lt
  have h3 := length_head hhead
  omega

/-- **A text is the value of its members**, if each of them can be read. -/
theorem parse_reads (h : RootReads text ms) : parse text = .ok v ↔ ∃ vs, Readable ms vs ∧ v = ofMembers vs := by
  have hlength := h.length_le
  obtain ⟨t, t', rest, hhead, hquote, htext, hblank⟩ := h
  rw [parse_eq_ok]
  apply Iff.intro
  · intro h'
    obtain ⟨left, hv, -⟩ := h'
    rcases gives_value_succ.1 hv with ⟨hscalar, hhead'⟩ | ⟨u, vs, hhead', -⟩ | ⟨u, vs, hhead', -, hobject, rfl⟩
    · exact absurd (hhead'.unique hhead).1 hscalar.2
    · cases (hhead'.unique hhead).1
    · obtain ⟨-, rfl⟩ := hhead.unique hhead'
      rcases hobject with ⟨-, hend⟩ | ⟨u, hquote', htext'⟩
      · exact absurd (hquote.unique hend).1 (by decide)
      · obtain ⟨-, rfl⟩ := hquote.unique hquote'
        exact ⟨vs, ((membersText_reads htext).1 htext').1, rfl⟩
  · intro h'
    obtain ⟨vs, hms, rfl⟩ := h'
    rw [hms, List.length_map] at hlength
    refine ⟨rest, gives_value_succ.2 (Or.inr (Or.inr ⟨t, vs, hhead, hlength, ?_, rfl⟩)), hblank⟩
    exact Or.inr ⟨t', hquote, (membersText_reads htext).2 ⟨hms, rfl⟩⟩

theorem rootMembers_reads (h : RootReads text ms) (hms : Readable ms vs) : rootMembers text = vs := by
  have hlength := h.length_le
  rw [hms, List.length_map] at hlength
  obtain ⟨t, t', rest, hhead, hquote, htext, -⟩ := h
  exact rootMembers_object hhead hlength (Or.inr ⟨t', hquote, (membersText_reads htext).2 ⟨hms, rfl⟩⟩)

/-! ## As a record -/

namespace Schema

variable {S : Schema} {d : S.Draft} {r : S.Record}

theorem mirrors_readMember_reads (hS : S.Unchosen) {m : String × Option Json} (hknown : S.known m.1 = true → m.2.isSome)
    (hcolon : Shows t ':' t') (hv : Reads t' m.2 rest) (hfuel : t'.length ≤ fuel) :
    Mirrors (S.readMember fuel d m.1) t (S.visit d (m.1, m.2.getD .null)) rest := by
  cases hk : S.key? m.1 with
  | none =>
    unfold readMember visit
    rw [hk]
    exact (gives_colon.2 hcolon).mirrors_bind
      ((gives_skipValue hv.skips hfuel).mirrors_bind (gives_pure.2 ⟨rfl, rfl⟩).mirrors)
  | some k =>
    obtain ⟨v, hm⟩ := Option.isSome_iff_exists.1 (hknown (by rw [known, hk]; rfl))
    rw [hm] at hv ⊢
    exact mirrors_readMember hS hcolon (hv.gives.2 ⟨rfl, rfl⟩) hfuel

/-- **A text is the record of its members**, if those that are known can be read. -/
theorem ofText_reads (hS : S.Unchosen) (h : RootReads text ms) (hknown : ∀ m ∈ ms, S.known m.1 = true → m.2.isSome) :
    S.ofText text = .ok r ↔ S.ofJson (.obj (ms.map fun m => (m.1, m.2.getD .null))) = .ok r := by
  have hlength := h.length_le
  obtain ⟨t, t', rest, hhead, hquote, htext, hblank⟩ := h
  have hinside : t'.length ≤ text.length := (hquote.length_lt.trans (length_head hhead)).le
  have hbounded := bounded_members (n := text.length) (fun hv => hv.skips.length_lt.le) htext hinside
  have hmembers : Mirrors (foldMembers text.length (S.readMember text.length) blank) t
      ((ms.map fun m => (m.1, m.2.getD .null)).foldlM S.visit blank) rest := by
    rw [List.foldlM_map]
    have hobject : ObjectText (fun bs o rest => Reads bs o rest ∧ bs.length ≤ text.length) t ms rest :=
      Or.inr ⟨t', hquote, hbounded⟩
    refine hobject.mirrors ?_ hlength
    intro d m hm u u' u'' hcolon hv
    exact mirrors_readMember_reads hS (hknown m hm) hcolon hv.1 hv.2
  have hread : Mirrors (S.read text.length) text
      (S.ofJson (.obj (ms.map fun m => (m.1, m.2.getD .null)))) rest := by
    refine hhead.mirrors_bind ?_
    exact hmembers.bind fun d _ => mirrors_lift _
  refine gives_whole.trans ?_
  apply Iff.intro
  · intro h'
    obtain ⟨left, hgives, -⟩ := h'
    exact ((hread r left).1 hgives).1
  · intro hr
    exact ⟨rest, hread.gives hr, hblank⟩

end Schema

/-! ## Written objects -/

section Written

variable {α : Type} {cell : α → Bytes} {o : α → Option Json} {fields : List (String × α)}

def objectBytes (cell : α → Bytes) (fields : List (String × α)) : Bytes :=
  '\x7b'.toUInt8 :: '"'.toUInt8 :: membersBytes cell fields

/-- **Members written without blanks are read one by one.** -/
theorem rootReads_written (hne : fields ≠ []) (hkeys : ∀ f ∈ fields, PlainText f.1)
    (hval : ∀ f ∈ fields, ∀ tail, Delimited tail → Reads (cell f.2 ++ tail) (o f.2) tail) :
    RootReads (objectBytes cell fields) (fields.map fun f => (f.1, o f.2)) := by
  have htext : MembersText Reads (membersBytes cell fields ++ []) (fields.map fun f => (f.1, o f.2)) [] :=
    membersText_written hne hkeys hval
  rw [List.append_nil] at htext
  exact ⟨_, _, [], gives_head.2 (.map (shows_cons (by decide) (by decide))), shows_cons (by decide) (by decide), htext,
    rfl⟩

/-- **An object written without blanks is read wherever it stands**, if its values are read before every delimiter. -/
theorem gives_written (cell : α → Bytes) (g : α → Json) (hne : fields ≠ [])
    (hkeys : ∀ f ∈ fields, PlainText f.1)
    (hval : ∀ f ∈ fields, ∀ tail, Delimited tail → Gives (value fuel depth) (cell f.2 ++ tail) (g f.2) tail)
    (hfuel : fields.length ≤ fuel) :
    Gives (value fuel (depth + 1)) (objectBytes cell fields ++ rest) (ofMembers (fields.map fun f => (f.1, g f.2)))
      rest := by
  have hhead : Gives Reader.head (objectBytes cell fields ++ rest) .map
      ('"'.toUInt8 :: (membersBytes cell fields ++ rest)) :=
    gives_head.2 (.map (shows_cons (by decide) (by decide)))
  have htext : MembersText (Gives (value fuel depth)) (membersBytes cell fields ++ rest)
      (fields.map fun f => (f.1, g f.2)) rest := membersText_written hne hkeys hval
  have hlength : (fields.map fun f => (f.1, g f.2)).length ≤ fuel := by rwa [List.length_map]
  refine gives_value_succ.2 (Or.inr (Or.inr ⟨_, _, hhead, hlength, ?_, rfl⟩))
  exact Or.inr ⟨_, shows_cons (by decide) (by decide), htext⟩

end Written

end PacketForwarder.Json
