/-
The texts of the values in an object. `RootTexts text ms` says of a text that it spells an object with these members,
each given by its key and the text of its value, without the blanks around it. The last text of a key decides what the
key has (`RootTexts.get?`), and where that text is a numeral it is read as one (`RootTexts.numeral`).
-/
import PacketForwarder.Proofs.Json.Readings

namespace PacketForwarder.Json

open Reader

variable {α β : Type} {val : Bytes → α → Bytes → Prop} {val' : Bytes → β → Bytes → Prop} {bs rest text t : Bytes}
  {key : String} {b : Bytes} {v : Json} {h : Head} {l : Numeral} {n : Nat}

namespace Reader

/-! ## Blanks in front -/

theorem gives_head_blanks : Gives head (bs.dropWhile isBlank) h rest ↔ Gives head bs h rest := by
  have hshows : ∀ {c t}, Shows (bs.dropWhile isBlank) c t ↔ Shows bs c t := by
    intro c t
    rw [Shows, Shows, List.dropWhile_idempotent]
  have hblank : Blank (bs.dropWhile isBlank) ↔ Blank bs := by
    rw [Blank, Blank, List.dropWhile_idempotent]
  unfold head
  rw [gives_peek_bind, gives_peek_bind]
  simp only [hshows, hblank]

/-! ## Members and what follows them -/

/-- a comma or the closing brace, perhaps after blanks -/
def EndsMember (tail : Bytes) : Prop := ∃ t, Shows tail ',' t ∨ Shows tail '\x7d' t

theorem EndsMember.endsNumber (h : EndsMember rest) : EndsNumber rest := by
  cases rest with
  | nil =>
    obtain ⟨t, hshows | hshows⟩ := h
    · exact absurd rfl hshows.not_blank
    · exact absurd rfl hshows.not_blank
  | cons c rest =>
    rw [endsNumber_cons]
    by_cases hblank : isBlank c = true
    · simp only [isBlank, Bool.or_eq_true, decide_eq_true_eq] at hblank
      rcases hblank with ((rfl | rfl) | rfl) | rfl <;> decide
    · obtain ⟨t, hshows | hshows⟩ := h
      all_goals
        have hdrop := hshows.1
        rw [List.dropWhile_cons_of_neg hblank] at hdrop
        obtain ⟨rfl, -⟩ := List.cons.inj hdrop
        decide

/-- each member stands somewhere in the text of its object -/
theorem MembersText.of_mem {ms : List (String × α)} {m : String × α} (htext : MembersText val bs ms rest)
    (hm : m ∈ ms) : ∃ bs' tail, val bs' m.2 tail ∧ EndsMember tail := by
  induction htext with
  | last hmember hend =>
    obtain ⟨t, t', -, -, hval⟩ := hmember
    obtain rfl := List.mem_singleton.1 hm
    exact ⟨_, _, hval, _, Or.inr hend⟩
  | more hmember hcomma _ _ ih =>
    rcases List.mem_cons.1 hm with rfl | hm
    · obtain ⟨t, t', -, -, hval⟩ := hmember
      exact ⟨_, _, hval, _, Or.inl hcomma⟩
    · exact ih hm

theorem MembersText.map {ms : List (String × α)} {g : α → β} (hg : ∀ {bs a rest}, val bs a rest → val' bs (g a) rest)
    (htext : MembersText val bs ms rest) : MembersText val' bs (ms.map fun m => (m.1, g m.2)) rest := by
  have hmember : ∀ {bs m rest}, MemberText val bs m rest → MemberText val' bs (m.1, g m.2) rest := by
    intro bs m rest hm
    obtain ⟨t, t', hkey, hcolon, hval⟩ := hm
    exact ⟨t, t', hkey, hcolon, hg hval⟩
  induction htext with
  | last hm hend => exact .last (hmember hm) hend
  | more hm hcomma hquote _ ih => exact .more (hmember hm) hcomma hquote ih

end Reader

/-! ## Objects -/

/-- a value with its text, perhaps after blanks -/
def ValueText (n : Nat) (bs : Bytes) (m : Bytes × Json) (rest : Bytes) : Prop :=
  bs.dropWhile isBlank = m.1 ++ rest ∧ Gives (value n Schema.fieldDepth) bs m.2 rest

/-- **The text of an object** with these keys and these texts of values, in their order and with repeats -/
def RootTexts (text : Bytes) (ms : List (String × Bytes)) : Prop :=
  ∃ t rest, ∃ vs : List (String × Bytes × Json), Gives Reader.head text .map t ∧
    ObjectText (ValueText text.length) t vs rest ∧ Blank rest ∧ ms = vs.map fun m => (m.1, m.2.1)

variable {ms : List (String × Bytes)}

theorem parse_members {vs : List (String × Json)} (hhead : Gives Reader.head text .map t)
    (hobject : ObjectText (Gives (value text.length Schema.fieldDepth)) t vs rest) (hblank : Blank rest) :
    parse text = .ok (ofMembers vs) := by
  have hlength : vs.length ≤ text.length := by
    have h1 := length_head hhead
    rcases hobject with ⟨rfl, -⟩ | ⟨t', hquote, htext⟩
    · exact Nat.zero_le _
    · have h2 := length_membersText (fun hv => (skips_value hv).length_lt.le) htext
      have h3 := hquote.length_lt
      omega
  exact parse_eq_ok.2 ⟨rest, gives_value_succ.2 (Or.inr (Or.inr ⟨t, vs, hhead, hlength, hobject, rfl⟩)), hblank⟩

/-- **What a key has is read from the last of its texts.** -/
theorem RootTexts.get? (hroot : RootTexts text ms) (hkey : ms.reverse.lookup key = some b)
    (hv : parse text = .ok v) : ∃ w bs tail, v.get? key = some w ∧ ValueText text.length bs (b, w) tail ∧
      EndsMember tail := by
  obtain ⟨t, rest, vs, hhead, hobject, hblank, rfl⟩ := hroot
  rw [← List.map_reverse, lookup_map] at hkey
  obtain ⟨⟨b', w⟩, hlookup, rfl⟩ := Option.map_eq_some_iff.1 hkey
  have hmem := List.mem_reverse.1 (mem_of_lookup hlookup)
  rcases hobject with ⟨rfl, -⟩ | ⟨t', hquote, htext⟩
  · cases hmem
  · have hvalues : MembersText (Gives (value text.length Schema.fieldDepth)) t' (vs.map fun m => (m.1, m.2.2)) rest :=
      htext.map fun hm => hm.2
    have hparse := parse_members hhead (Or.inr ⟨t', hquote, hvalues⟩) hblank
    obtain rfl := Except.ok.inj (hv.symm.trans hparse)
    obtain ⟨bs, tail, hvalue, hend⟩ := htext.of_mem hmem
    refine ⟨w, bs, tail, ?_, hvalue, hend⟩
    rw [get?_ofMembers, ← List.map_reverse, lookup_map, hlookup]
    rfl

theorem valueText_of_reads {w : Json} (hreads : Reads (b ++ rest) (some w) rest)
    (hb : ∀ c ∈ (b ++ rest).head?, isBlank c = false) : ValueText n (b ++ rest) (b, w) rest := by
  refine ⟨?_, hreads.gives.2 ⟨rfl, rfl⟩⟩
  cases hbytes : b ++ rest with
  | nil => rfl
  | cons c tail =>
    rw [hbytes] at hb
    rw [List.dropWhile_cons_of_neg (by simp [hb c rfl])]

/-- **Members written without blanks** stand in the object with the texts that were written. -/
theorem rootTexts_written {fields : List (String × Bytes × Json)} (hne : fields ≠ [])
    (hkeys : ∀ f ∈ fields, PlainText f.1)
    (hval : ∀ f ∈ fields, ∀ tail, Delimited tail → Reads (f.2.1 ++ tail) (some f.2.2) tail)
    (hblanks : ∀ f ∈ fields, ∃ c tail, f.2.1 = c :: tail ∧ isBlank c = false) :
    RootTexts (objectBytes Prod.fst fields) (fields.map fun f => (f.1, f.2.1)) := by
  have htext : ∀ n, MembersText (ValueText n) (membersBytes Prod.fst fields ++ [])
      (fields.map fun f => (f.1, id f.2)) [] := by
    intro n
    refine membersText_written hne hkeys fun f hf tail htail => valueText_of_reads (hval f hf tail htail) ?_
    obtain ⟨c, t, hbytes, hc⟩ := hblanks f hf
    rw [hbytes]
    rintro c' ⟨⟩
    exact hc
  have hfields : (fields.map fun f => (f.1, id f.2)) = fields := List.map_id fields
  simp only [List.append_nil, hfields] at htext
  exact ⟨_, [], fields, gives_head.2 (.map (shows_cons (by decide) (by decide))),
    Or.inr ⟨_, shows_cons (by decide) (by decide), htext _⟩, rfl, rfl⟩

/-- **A numeral is read as one**, wherever it stands in an object. -/
theorem RootTexts.numeral (hroot : RootTexts text ms) (hkey : ms.reverse.lookup key = some l.bytes)
    (hv : parse text = .ok v) : ∃ w, v.get? key = some w ∧ l.head? = some w.head := by
  obtain ⟨w, bs, tail, hw, ⟨hbytes, hgives⟩, hend⟩ := hroot.get? hkey hv
  obtain ⟨t, hhead, -⟩ := gives_head_of_value hgives
  rw [← gives_head_blanks, hbytes] at hhead
  exact ⟨w, hw, ((gives_head_numeral hend.endsNumber).1 hhead).1⟩

end PacketForwarder.Json
