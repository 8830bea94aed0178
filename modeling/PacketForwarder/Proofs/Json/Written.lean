/-
Text that is written without blanks and escapes is read back. A number is written as a sign, digits without leading
zeros, and perhaps a point with more digits; the readers take all of it if a delimiter follows, that is a comma, a
closing brace or the end of the text. A plain string stands between quotes (`reads_number`, `reads_text`). Members in
quotes, with colons and commas, are the text of an object for any grammar of values under which each value is followed
by a delimiter (`membersText_written`).
-/
import PacketForwarder.Proofs.Json.Numerals

namespace PacketForwarder.Json.Reader

variable {rest tail : Bytes} {negative : Bool} {ds : List Char} {n fuel depth : Nat}

/-! ## Delimiters -/

/-- what stands after a value: the end of the text, or what goes on in an object -/
def Delimited (tail : Bytes) : Prop := tail = [] ∨ ∃ t, tail = ','.toUInt8 :: t ∨ tail = '\x7d'.toUInt8 :: t

theorem Delimited.endsNumber (h : Delimited tail) : EndsNumber tail := by
  rcases h with rfl | ⟨t, rfl | rfl⟩
  · exact endsNumber_nil
  · exact endsNumber_cons.2 (by decide)
  · exact endsNumber_cons.2 (by decide)

/-! ## Values -/

/-- the value that is no more than its head -/
def scalar? : Head → Option Json
  | .null => some .null
  | .bool b => some (.bool b)
  | .int n => some (.int n)
  | .float x => some (.float x)
  | .str s => some (.str s)
  | .sequence => none
  | .map => none

theorem scalar?_eq_some {h : Head} {v : Json} : scalar? h = some v ↔ v.IsScalar ∧ v.head = h := by
  apply Iff.intro
  · intro hv
    cases h <;> cases hv
    all_goals exact ⟨⟨nofun, nofun⟩, rfl⟩
  · intro h'
    obtain ⟨hscalar, rfl⟩ := h'
    cases v with
    | arr vs => exact absurd rfl hscalar.1
    | obj ms => exact absurd rfl hscalar.2
    | null | bool | int | float | str => rfl

/-- Text of a value that can be passed over in any case. It is read as a value or, if there is none, refused. -/
structure Reads (bs : Bytes) (o : Option Json) (rest : Bytes) : Prop where
  skips : Skips bs rest
  gives : ∀ {fuel depth : Nat} {v : Json} {left : Bytes}, Gives (value fuel depth) bs v left ↔ o = some v ∧ rest = left

/-- where no container begins, a value is a head -/
theorem reads_of_head {bs : Bytes} {o : Option Head} (hskip : Skips bs rest)
    (hhead : ∀ {h left}, Gives head bs h left ↔ o = some h ∧ rest = left)
    (hscalar : ∀ h, o = some h → h ≠ .sequence ∧ h ≠ .map) : Reads bs (o.bind scalar?) rest := by
  refine ⟨hskip, fun {fuel depth v left} => ?_⟩
  have hvalue : Gives (value fuel depth) bs v left ↔ v.IsScalar ∧ Gives head bs v.head left := by
    cases depth with
    | zero => exact gives_value_zero
    | succ depth =>
      rw [gives_value_succ]
      apply Iff.intro
      · intro h'
        rcases h' with hv | ⟨t, vs, hseq, -⟩ | ⟨t, ms, hmap, -⟩
        · exact hv
        · exact absurd rfl (hscalar _ (hhead.1 hseq).1).1
        · exact absurd rfl (hscalar _ (hhead.1 hmap).1).2
      · exact Or.inl
  rw [hvalue, hhead, Option.bind_eq_some_iff]
  apply Iff.intro
  · intro h'
    obtain ⟨hs, ho, rfl⟩ := h'
    exact ⟨⟨_, ho, scalar?_eq_some.2 ⟨hs, rfl⟩⟩, rfl⟩
  · intro h'
    obtain ⟨⟨h, ho, hv⟩, rfl⟩ := h'
    obtain ⟨hs, rfl⟩ := scalar?_eq_some.1 hv
    exact ⟨hs, ho, rfl⟩

theorem reads_numeral (l : Numeral) (htail : EndsNumber tail) : Reads (l.bytes ++ tail) (l.head?.bind scalar?) tail :=
  reads_of_head (skips_numeral l htail) (gives_head_numeral htail) fun _ => numberHead?_scalar

theorem reads_number {fraction : Option (List Char)} (hfraction : IsFraction fraction) (htail : Delimited tail) :
    Reads ((numberChars negative n fraction).map Char.toUInt8 ++ tail)
      ((numberHead? negative (Nat.toDigits 10 n) fraction none).bind scalar?) tail := by
  have hreads := reads_numeral (.plain negative n fraction hfraction) htail.endsNumber
  rwa [Numeral.bytes, Numeral.plain_chars] at hreads

/-- **A plain text in quotes** -/
theorem reads_text {s : String} (hs : PlainText s) :
    Reads ('"'.toUInt8 :: (bytesOf s ++ '"'.toUInt8 :: tail)) (some (.str s)) tail := by
  have hgives : Gives head ('"'.toUInt8 :: (bytesOf s ++ '"'.toUInt8 :: tail)) (.str s) tail :=
    gives_head.2 (.text (shows_cons (by decide) (by decide)) (gives_string_plain hs))
  have hhead : ∀ {h left}, Gives head ('"'.toUInt8 :: (bytesOf s ++ '"'.toUInt8 :: tail)) h left ↔
      some (Head.str s) = some h ∧ tail = left := by
    intro h left
    apply Iff.intro
    · intro h'
      obtain ⟨rfl, rfl⟩ := hgives.unique h'
      exact ⟨rfl, rfl⟩
    · intro h'
      obtain ⟨hs, rfl⟩ := h'
      exact Option.some.inj hs ▸ hgives
  have hscalar : ∀ h, some (Head.str s) = some h → h ≠ .sequence ∧ h ≠ .map := by
    intro h hs
    cases hs
    exact ⟨nofun, nofun⟩
  exact reads_of_head (skips_scalar hgives rfl) hhead hscalar

/-! ## Objects -/

section Objects

variable {α β : Type} {val : Bytes → α → Bytes → Prop} {cell : β → Bytes} {g : β → α}
  {fields : List (String × β)}

/-- members without blanks from behind the quote of the first key, with the closing brace -/
def membersBytes (cell : β → Bytes) : List (String × β) → Bytes
  | [] => ['\x7d'.toUInt8]
  | [f] => bytesOf f.1 ++ '"'.toUInt8 :: ':'.toUInt8 :: (cell f.2 ++ ['\x7d'.toUInt8])
  | f :: fs =>
    bytesOf f.1 ++ '"'.toUInt8 :: ':'.toUInt8 :: (cell f.2 ++ ','.toUInt8 :: '"'.toUInt8 :: membersBytes cell fs)

theorem memberText_written {f : String × β} (hkey : PlainText f.1) (hval : val (cell f.2 ++ tail) (g f.2) tail) :
    MemberText val (bytesOf f.1 ++ '"'.toUInt8 :: ':'.toUInt8 :: (cell f.2 ++ tail)) (f.1, g f.2) tail :=
  ⟨_, _, gives_string_plain hkey, shows_cons (by decide) (by decide), hval⟩

/-- **Members written without blanks are the text of an object.** -/
theorem membersText_written (hne : fields ≠ []) (hkeys : ∀ f ∈ fields, PlainText f.1)
    (hval : ∀ f ∈ fields, ∀ tail, Delimited tail → val (cell f.2 ++ tail) (g f.2) tail) :
    MembersText val (membersBytes cell fields ++ rest) (fields.map fun f => (f.1, g f.2)) rest := by
  induction fields with
  | nil => exact absurd rfl hne
  | cons f fs ih =>
    have hkey := hkeys f List.mem_cons_self
    have hf := hval f List.mem_cons_self
    cases fs with
    | nil =>
      have hm := memberText_written hkey (hf ('\x7d'.toUInt8 :: rest) (Or.inr ⟨rest, Or.inr rfl⟩))
      simpa [membersBytes] using MembersText.last hm (shows_cons (by decide) (by decide))
    | cons f' fs =>
      have hrest := ih (by simp) (fun f hf => hkeys f (List.mem_cons_of_mem _ hf))
        fun f hf => hval f (List.mem_cons_of_mem _ hf)
      have hm := memberText_written hkey
        (hf (','.toUInt8 :: '"'.toUInt8 :: (membersBytes cell (f' :: fs) ++ rest)) (Or.inr ⟨_, Or.inl rfl⟩))
      have htext := MembersText.more hm (shows_cons (by decide) (by decide)) (shows_cons (by decide) (by decide)) hrest
      simpa [membersBytes] using htext

end Objects

end PacketForwarder.Json.Reader
