/-
The grammar of JSON, over characters and without a reader. `Text` has one constructor for each production: a value is a
word, a number, a string, an array or an object, with blanks around it where it stands in another one. A part of a text
carries what later results need of it: the members of an object are given with their keys and the texts of their values.

What is no JSON is shown by a necessary condition. Outside of its strings a text holds only brackets, commas, colons,
digits and the few letters of the three words and of exponents; `scan` runs over a text and stops where it holds
anything else (`Text.scan`).
-/
import PacketForwarder.Proofs.Json.Numerals

namespace PacketForwarder.Json

namespace Grammar

/-! ## Strings -/

def IsBlank (c : Char) : Prop := c ∈ [' ', '\t', '\n', '\r']

def Blanks (cs : List Char) : Prop := ∀ c ∈ cs, IsBlank c

def IsHexDigit (c : Char) : Prop := c.isDigit = true ∨ c ∈ "abcdefABCDEF".toList

/-- the characters between the quotes of a string -/
inductive Characters : List Char → Prop where
  | none : Characters []
  | unescaped {c : Char} {cs : List Char} : 0x20 ≤ c.toNat → c ≠ '"' → c ≠ '\\' → Characters cs → Characters (c :: cs)
  | escaped {c : Char} {cs : List Char} : c ∈ "\"\\/bfnrt".toList → Characters cs → Characters ('\\' :: c :: cs)
  | codeUnit {ds cs : List Char} : ds.length = 4 → (∀ d ∈ ds, IsHexDigit d) → Characters cs →
      Characters ('\\' :: 'u' :: (ds ++ cs))

/-! ## Texts -/

inductive Part where
  | value
  /-- a value of this text, with blanks around it -/
  | padded (value : List Char)
  /-- what stands between the brackets of an array that is not empty -/
  | items
  /-- what stands between the braces of an object that is not empty: its keys, and the texts of their values -/
  | members (ms : List (List Char × List Char))

/-- the productions of the grammar -/
inductive Text : Part → List Char → Prop where
  | null : Text .value "null".toList
  | yes : Text .value "true".toList
  | no : Text .value "false".toList
  | number (l : Numeral) : Text .value l.chars
  | string {cs : List Char} : Characters cs → Text .value ('"' :: (cs ++ ['"']))
  | emptyArray {cs : List Char} : Blanks cs → Text .value ('[' :: (cs ++ [']']))
  | array {cs : List Char} : Text .items cs → Text .value ('[' :: (cs ++ [']']))
  | emptyObject {cs : List Char} : Blanks cs → Text .value ('\x7b' :: (cs ++ ['\x7d']))
  | object {ms : List (List Char × List Char)} {cs : List Char} : Text (.members ms) cs →
      Text .value ('\x7b' :: (cs ++ ['\x7d']))
  | padded {left v right : List Char} : Blanks left → Text .value v → Blanks right →
      Text (.padded v) (left ++ v ++ right)
  | item {v cs : List Char} : Text (.padded v) cs → Text .items cs
  | items {v cs ds : List Char} : Text (.padded v) cs → Text .items ds → Text .items (cs ++ ',' :: ds)
  | member {left key right v cs : List Char} : Blanks left → Characters key → Blanks right → Text (.padded v) cs →
      Text (.members [(key, v)]) (left ++ '"' :: (key ++ '"' :: (right ++ ':' :: cs)))
  | members {key v cs ds : List Char} {ms : List (List Char × List Char)} : Text (.members [(key, v)]) cs →
      Text (.members ms) ds → Text (.members ((key, v) :: ms)) (cs ++ ',' :: ds)

/-- **The text of an object** with these keys and these texts of values -/
def ObjectText (cs : List Char) (ms : List (List Char × List Char)) : Prop :=
  ∃ left body right, Blanks left ∧ Blanks right ∧ cs = left ++ '\x7b' :: (body ++ ['\x7d']) ++ right ∧
    (ms = [] ∧ Blanks body ∨ Text (.members ms) body)

/-! ## Strings and numbers -/

/-- plain characters stand for themselves -/
theorem characters_plain {cs : List Char} (h : ∀ c ∈ cs, IsPlain c) : Characters cs := by
  induction cs with
  | nil => exact .none
  | cons c cs ih =>
    obtain ⟨hlow, -, hquote, hslash⟩ := h c List.mem_cons_self
    exact .unescaped hlow hquote hslash (ih fun d hd => h d (List.mem_cons_of_mem c hd))

theorem blanks_nil : Blanks [] := nofun

theorem Text.bare {v : List Char} (h : Text .value v) : Text (.padded v) v := by
  simpa using Text.padded blanks_nil h blanks_nil

/-! ## Outside of strings -/

/-- where a scan over a text stands -/
inductive Place where
  | outside
  | inside
  /-- after a backslash in a string -/
  | escaped
  deriving DecidableEq

/-- the characters of a text that are not in a string -/
def tokenChars : List Char := " \t\n\r[]\x7b\x7d,:+-.0123456789Eabdefglnrstu".toList

/-- one character; nothing is after what no text has outside of a string -/
def step : Place → Char → Option Place
  | .outside, c => if c = '"' then some .inside else if c ∈ tokenChars then some .outside else none
  | .inside, c => some (if c = '"' then .outside else if c = '\\' then .escaped else .inside)
  | .escaped, _ => some .inside

/-- where a scan ends, unless it stops -/
def scan (p : Place) (cs : List Char) : Option Place := cs.foldlM step p

theorem scan_cons {p q : Place} {c : Char} {cs : List Char} (h : step p c = some q) :
    scan p (c :: cs) = scan q cs := by
  simp [scan, h]

theorem scan_append (p : Place) (cs ds : List Char) : scan p (cs ++ ds) = (scan p cs).bind fun q => scan q ds :=
  List.foldlM_append

/-- a scan goes on from where a piece ends -/
theorem scan_after {p q : Place} {cs : List Char} (h : scan p cs = some q) (ds : List Char) :
    scan p (cs ++ ds) = scan q ds := by
  rw [scan_append, h]
  rfl

/-- characters of tokens leave a scan where it is -/
theorem scan_tokens {cs : List Char} (h : ∀ c ∈ cs, c ∈ tokenChars) : scan .outside cs = some .outside := by
  induction cs with
  | nil => rfl
  | cons c cs ih =>
    have hstep : step .outside c = some .outside := by
      have hquote : c ≠ '"' := by
        rintro rfl
        exact absurd (h _ List.mem_cons_self) (by decide)
      simp [step, hquote, h c List.mem_cons_self]
    rw [scan_cons hstep]
    exact ih fun d hd => h d (List.mem_cons_of_mem c hd)

/-- so do characters of a string, but for quotes and backslashes -/
theorem scan_unescaped {cs : List Char} (h : ∀ c ∈ cs, c ≠ '"' ∧ c ≠ '\\') : scan .inside cs = some .inside := by
  induction cs with
  | nil => rfl
  | cons c cs ih =>
    obtain ⟨hquote, hslash⟩ := h c List.mem_cons_self
    have hstep : step .inside c = some .inside := by simp [step, hquote, hslash]
    rw [scan_cons hstep]
    exact ih fun d hd => h d (List.mem_cons_of_mem c hd)

theorem scan_characters {cs : List Char} (h : Characters cs) : scan .inside cs = some .inside := by
  have hescape : ∀ (c : Char) (ds : List Char), scan .inside ('\\' :: c :: ds) = scan .inside ds := by
    intro c ds
    rw [scan_cons (q := .escaped) rfl, scan_cons (q := .inside) rfl]
  induction h with
  | none => rfl
  | unescaped _ hquote hslash _ ih =>
    have hstep : ∀ {c : Char}, c ≠ '"' → c ≠ '\\' → step .inside c = some .inside := by
      intro c hquote hslash
      simp [step, hquote, hslash]
    rw [scan_cons (hstep hquote hslash)]
    exact ih
  | escaped _ _ ih =>
    rw [hescape]
    exact ih
  | codeUnit _ hhex _ ih =>
    have hplain : ∀ {d : Char}, IsHexDigit d → d ≠ '"' ∧ d ≠ '\\' := by
      intro d hd
      rcases hd with hd | hd
      · obtain ⟨-, -, hquote, hslash⟩ := plain_of_isDigit hd
        exact ⟨hquote, hslash⟩
      · exact ⟨ne_of_mem_of_not_mem hd (by decide), ne_of_mem_of_not_mem hd (by decide)⟩
    rw [hescape, scan_after (scan_unescaped fun d hd => hplain (hhex d hd))]
    exact ih

theorem scan_string {cs : List Char} (h : Characters cs) (ds : List Char) :
    scan .outside ('"' :: (cs ++ '"' :: ds)) = scan .outside ds := by
  rw [scan_cons (q := .inside) rfl, scan_after (scan_characters h), scan_cons (q := .outside) rfl]

theorem token_of_isDigit {c : Char} (h : c.isDigit = true) : c ∈ tokenChars := by
  obtain ⟨hlo, hhi⟩ : 48 ≤ c.toNat ∧ c.toNat ≤ 57 := by
    simpa [Char.isDigit, UInt32.le_iff_toNat_le] using h
  rw [← Char.ofNat_toNat c]
  interval_cases c.toNat <;> decide

theorem token_of_isBlank {c : Char} (h : IsBlank c) : c ∈ tokenChars := by
  simp only [IsBlank, List.mem_cons, List.not_mem_nil, or_false] at h
  rcases h with rfl | rfl | rfl | rfl <;> decide

theorem exponent_tokens (e : Exponent) : ∀ c ∈ e.chars, c ∈ tokenChars := by
  have hsign : ∀ c ∈ Exponent.signChars e.sign, c ∈ tokenChars := by
    rcases e.sign with - | negative
    · exact List.forall_mem_nil _
    · exact List.forall_mem_singleton.2 (by cases negative <;> decide)
  have hmark : (if e.capital then 'E' else 'e') ∈ tokenChars := by cases e.capital <;> decide
  exact List.forall_mem_cons.2 ⟨hmark, List.forall_mem_append.2 ⟨hsign, fun c hc => token_of_isDigit (e.isDigits c hc)⟩⟩

theorem numeral_tokens (l : Numeral) : ∀ c ∈ l.chars, c ∈ tokenChars := by
  have hsign : ∀ c ∈ (if l.negative then ['-'] else [] : List Char), c ∈ tokenChars := by
    cases l.negative
    · exact List.forall_mem_nil _
    · exact List.forall_mem_singleton.2 (by decide)
  have hfraction : ∀ c ∈ l.fraction.elim [] fun ds => '.' :: ds, c ∈ tokenChars := by
    cases hf : l.fraction with
    | none => exact List.forall_mem_nil _
    | some ds => exact List.forall_mem_cons.2 ⟨by decide, fun c hc => token_of_isDigit ((l.isFraction ds hf).2 c hc)⟩
  have hexponent : ∀ c ∈ l.exponent.elim [] Exponent.chars, c ∈ tokenChars := by
    cases l.exponent with
    | none => exact List.forall_mem_nil _
    | some e => exact exponent_tokens e
  simp only [Numeral.chars, List.forall_mem_append]
  exact ⟨⟨⟨hsign, fun c hc => token_of_isDigit (l.isDigits c hc)⟩, hfraction⟩, hexponent⟩

theorem scan_blanks {cs : List Char} (h : Blanks cs) : scan .outside cs = some .outside :=
  scan_tokens fun c hc => token_of_isBlank (h c hc)

theorem scan_between {a b : Char} {cs : List Char} (ha : a ∈ tokenChars ∧ a ≠ '"') (hb : b ∈ tokenChars ∧ b ≠ '"')
    (h : scan .outside cs = some .outside) : scan .outside (a :: (cs ++ [b])) = some .outside := by
  have hstep : ∀ {c : Char}, c ∈ tokenChars ∧ c ≠ '"' → step .outside c = some .outside := by
    intro c hc
    simp [step, hc.1, hc.2]
  rw [scan_cons (hstep ha), scan_after h, scan_cons (hstep hb)]
  rfl

theorem scan_comma {cs ds : List Char} (h : scan .outside cs = some .outside) (h' : scan .outside ds = some .outside) :
    scan .outside (cs ++ ',' :: ds) = some .outside := by
  rw [scan_after h, scan_cons (q := .outside) rfl]
  exact h'

/-- **Every text is scanned from outside of strings to outside of strings.** -/
theorem Text.scan {part : Part} {cs : List Char} (h : Text part cs) : scan .outside cs = some .outside := by
  induction h with
  | null | yes | no => rfl
  | number l => exact scan_tokens (numeral_tokens l)
  | string hcs => exact scan_string hcs []
  | emptyArray hcs | emptyObject hcs => exact scan_between (by decide) (by decide) (scan_blanks hcs)
  | array _ ih | object _ ih => exact scan_between (by decide) (by decide) ih
  | padded hleft _ hright ih =>
    rw [List.append_assoc, scan_after (scan_blanks hleft), scan_after ih]
    exact scan_blanks hright
  | item _ ih => exact ih
  | items _ _ ih ih' | members _ _ ih ih' => exact scan_comma ih ih'
  | member hleft hkey hright _ ih =>
    rw [scan_after (scan_blanks hleft), scan_string hkey, scan_after (scan_blanks hright),
      scan_cons (q := .outside) rfl]
    exact ih

theorem ObjectText.scan {cs : List Char} {ms : List (List Char × List Char)} (h : ObjectText cs ms) :
    scan .outside cs = some .outside := by
  obtain ⟨left, body, right, hleft, hright, rfl, hbody⟩ := h
  have hscan : Grammar.scan .outside body = some .outside := by
    rcases hbody with ⟨-, hblanks⟩ | hmembers
    · exact scan_blanks hblanks
    · exact hmembers.scan
  have hbraces := scan_between (a := '\x7b') (b := '\x7d') (by decide) (by decide) hscan
  rw [List.append_assoc, scan_after (scan_blanks hleft), scan_after hbraces]
  exact scan_blanks hright

end Grammar

end PacketForwarder.Json
