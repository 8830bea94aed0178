/-
The text of scalars. A number is read in three parts, and what the parts spell is `numberHead?`; a string is scanned up
to its closing quote; `HeadText` lists the ways in which a value may begin, which are exactly those that the reader
knows (`gives_head`). Every head takes a byte at least.

Written text is read back: a numeral without leading zeros, perhaps with a point and more digits, is read up to the
delimiter after it, and a plain string is its own text.
-/
import PacketForwarder.Proofs.Json.Reading
import PacketForwarder.Proofs.Number.Decimal
import PacketForwarder.Proofs.Text.Runs

namespace PacketForwarder.Json.Reader

variable {bs t rest : Bytes} {ds : List Char} {h : Head} {negative : Bool}

/-! ## Digits -/

def charsOf (bs : Bytes) : List Char := bs.map fun b => Char.ofNat b.toNat

theorem gives_digits : Gives digits bs ds rest ↔
    ∃ run, bs = run ++ rest ∧ charsOf run = ds ∧ (∀ b ∈ run, isDigit b = true) ∧ EndsRun isDigit rest := by
  unfold digits
  rw [gives_get_bind]
  cases hspan : bs.span isDigit with
  | mk run tail =>
    obtain ⟨hbs, hrun, hend⟩ := run_of_span hspan
    dsimp only
    rw [gives_set_bind, gives_pure]
    apply Iff.intro
    · intro h
      obtain ⟨rfl, rfl⟩ := h
      exact ⟨run, hbs, rfl, hrun, hend⟩
    · intro h
      obtain ⟨run', rfl, rfl, hrun', hend'⟩ := h
      rw [span_run hrun' hend'] at hspan
      obtain ⟨rfl, rfl⟩ := Prod.mk.inj hspan
      exact ⟨rfl, rfl⟩

/-- one digit stands alone, more do not begin with zero -/
def WholeDigits (ds : List Char) : Prop := ds ≠ [] ∧ ¬(ds.head? = some '0' ∧ 1 < ds.length)

theorem gives_wholeDigits : Gives wholeDigits bs ds rest ↔ Gives digits bs ds rest ∧ WholeDigits ds := by
  unfold wholeDigits
  rw [gives_get_bind]
  cases bs with
  | nil =>
    refine iff_of_false gives_fail fun ⟨hds, hne, _⟩ => hne ?_
    obtain ⟨run, hrun, rfl, -⟩ := gives_digits.1 hds
    obtain ⟨rfl, -⟩ := List.append_eq_nil_iff.1 hrun.symm
    rfl
  | cons b tail =>
    by_cases hb : isDigit b = true
    · simp only [hb, Bool.not_true, Bool.false_eq_true, ↓reduceIte]
      rw [gives_bind]
      apply Iff.intro
      · intro h
        obtain ⟨ds', mid, hds, hcheck⟩ := h
        split_ifs at hcheck with hbad
        · cases gives_fail hcheck
        · obtain ⟨rfl, rfl⟩ := gives_pure.1 hcheck
          refine ⟨hds, ?_, by simpa using hbad⟩
          rintro rfl
          obtain ⟨run, hrun, hnil, -, hend⟩ := gives_digits.1 hds
          rw [List.map_eq_nil_iff.1 hnil, List.nil_append] at hrun
          rw [← hrun, endsRun_cons, hb] at hend
          cases hend
      · intro h
        obtain ⟨hds, hwhole⟩ := h
        refine ⟨ds, rest, hds, ?_⟩
        rw [if_neg (by simpa using hwhole.2)]
        exact gives_pure.2 ⟨rfl, rfl⟩
    · simp only [hb, Bool.not_false, ↓reduceIte]
      refine iff_of_false gives_fail fun ⟨hds, hne, _⟩ => hne ?_
      obtain ⟨run, hrun, rfl, hdigits, -⟩ := gives_digits.1 hds
      cases run with
      | nil => rfl
      | cons c run =>
        obtain ⟨rfl, -⟩ := List.cons.inj hrun
        exact absurd (hdigits b List.mem_cons_self) hb

theorem gives_fractionDigits {f : Option (List Char)} : Gives fractionDigits bs f rest ↔
    (f = none ∧ rest = bs ∧ bs.head? ≠ some '.'.toUInt8) ∨
      ∃ t ds, bs = '.'.toUInt8 :: t ∧ Gives digits t ds rest ∧ ds ≠ [] ∧ f = some ds := by
  unfold fractionDigits
  rw [gives_get_bind]
  cases bs with
  | nil => simp [eq_comm]
  | cons b tail =>
    by_cases hb : b = '.'.toUInt8
    · subst hb
      simp only [↓reduceIte, List.head?_cons, ne_eq, not_true_eq_false, and_false, false_or]
      rw [gives_set_bind, gives_bind]
      apply Iff.intro
      · intro h
        obtain ⟨ds, mid, hds, hcheck⟩ := h
        cases ds with
        | nil =>
          rw [gives_get_bind] at hcheck
          split_ifs at hcheck <;> cases gives_fail hcheck
        | cons d ds =>
          obtain ⟨rfl, rfl⟩ := gives_pure.1 hcheck
          exact ⟨tail, _, rfl, hds, by simp, rfl⟩
      · intro h
        obtain ⟨t, ds, ht, hds, hne, rfl⟩ := h
        obtain ⟨-, rfl⟩ := List.cons.inj ht
        refine ⟨ds, rest, hds, ?_⟩
        cases ds with
        | nil => exact absurd rfl hne
        | cons d ds => exact gives_pure.2 ⟨rfl, rfl⟩
    · simp only [hb, ↓reduceIte, gives_pure, List.head?_cons, ne_eq, Option.some.injEq, not_false_eq_true, and_true,
        List.cons.injEq, false_and, exists_const, or_false]
      exact ⟨fun h => ⟨h.1.symm, h.2.symm⟩, fun h => ⟨h.1.symm, h.2.symm⟩⟩

/-- an exponent behind its letter, without its sign -/
def afterSign : Bytes → Bytes
  | s :: more => if s = '+'.toUInt8 ∨ s = '-'.toUInt8 then more else s :: more
  | [] => []

def IsExponentByte (b : UInt8) : Prop := b = 'e'.toUInt8 ∨ b = 'E'.toUInt8

/-- the digits of an exponent, with its sign known -/
theorem gives_exponentDigits (negative : Bool) {e : Option Int} :
    Gives (do
      match ← digits with
      | [] => if (← get).isEmpty then fail .endInValue else fail .invalidNumber
      | ds => return some (if negative then -(Decimal.ofDigits ds : Int) else Decimal.ofDigits ds)) bs e rest ↔
    ∃ ds, Gives digits bs ds rest ∧ ds ≠ [] ∧
      e = some (if negative then -(Decimal.ofDigits ds : Int) else Decimal.ofDigits ds) := by
  rw [gives_bind]
  apply Iff.intro
  · intro h
    obtain ⟨ds, mid, hds, hcheck⟩ := h
    cases ds with
    | nil =>
      rw [gives_get_bind] at hcheck
      split_ifs at hcheck <;> cases gives_fail hcheck
    | cons d ds =>
      obtain ⟨rfl, rfl⟩ := gives_pure.1 hcheck
      exact ⟨_, hds, by simp, rfl⟩
  · intro h
    obtain ⟨ds, hds, hne, rfl⟩ := h
    refine ⟨ds, rest, hds, ?_⟩
    cases ds with
    | nil => exact absurd rfl hne
    | cons d ds => exact gives_pure.2 ⟨rfl, rfl⟩

theorem gives_exponentPart {e : Option Int} : Gives exponentPart bs e rest ↔
    (e = none ∧ rest = bs ∧ ∀ b ∈ bs.head?, ¬IsExponentByte b) ∨
      ∃ b t, IsExponentByte b ∧ bs = b :: t ∧ ∃ ds, Gives digits (afterSign t) ds rest ∧ ds ≠ [] ∧
        e = some (if t.head? = some '-'.toUInt8 then -(Decimal.ofDigits ds : Int) else Decimal.ofDigits ds) := by
  unfold exponentPart
  rw [gives_get_bind]
  cases bs with
  | nil => simp [eq_comm]
  | cons b tail =>
    by_cases hb : b = 'e'.toUInt8 ∨ b = 'E'.toUInt8
    · have hletter : ¬∀ b' ∈ (b :: tail).head?, ¬IsExponentByte b' := fun hall => hall b (by simp) hb
      have hone : ∀ P : Bytes → Prop, (∃ b' t, IsExponentByte b' ∧ b :: tail = b' :: t ∧ P t) ↔ P tail := by
        intro P
        apply Iff.intro
        · intro h
          obtain ⟨b', t, -, ht, hP⟩ := h
          obtain ⟨-, rfl⟩ := List.cons.inj ht
          exact hP
        · exact fun hP => ⟨b, tail, hb, rfl, hP⟩
      simp only [hb, ↓reduceIte, hletter, and_false, false_or, hone]
      cases tail with
      | nil => exact gives_set_bind.trans (gives_exponentDigits false)
      | cons s more =>
        by_cases hminus : s = '-'.toUInt8
        · subst hminus
          exact gives_set_bind.trans (gives_exponentDigits true)
        · by_cases hplus : s = '+'.toUInt8
          · subst hplus
            exact gives_set_bind.trans (gives_exponentDigits false)
          · simp only [hminus, hplus, ↓reduceIte, afterSign, or_self, List.head?_cons, Option.some.injEq]
            exact gives_set_bind.trans (gives_exponentDigits false)
    · simp only [hb, ↓reduceIte, gives_pure]
      apply Iff.intro
      · intro h
        obtain ⟨rfl, rfl⟩ := h
        refine Or.inl ⟨rfl, rfl, ?_⟩
        simpa [IsExponentByte] using hb
      · intro h
        rcases h with ⟨rfl, rfl, -⟩ | ⟨b', t, hletter, ht, -⟩
        · exact ⟨rfl, rfl⟩
        · obtain ⟨rfl, -⟩ := List.cons.inj ht
          exact absurd hletter hb

/-! ## Numbers -/

def floatHead? : Double → Option Head
  | .finite x => some (.float x)
  | _ => none

/-- what the parts of a number spell, if that is a finite number -/
def numberHead? (negative : Bool) (whole : List Char) (fraction : Option (List Char)) (exponent : Option Int) :
    Option Head :=
  let ds := fraction.getD []
  let asFloat := floatHead? (Decimal.toBinary .double
    ⟨negative, Decimal.ofDigits (whole ++ ds), exponent.getD 0 - ds.length⟩)
  if fraction.isSome || exponent.isSome then asFloat
  else (integer? negative (Decimal.ofDigits whole)).elim asFloat fun n => some (.int n)

theorem numberHead?_cases {whole : List Char} {fraction : Option (List Char)} {exponent : Option Int}
    (hhead : numberHead? negative whole fraction exponent = some h) : (∃ x, h = .float x) ∨ ∃ n, h = .int n := by
  have hfloat : ∀ {x : Double}, floatHead? x = some h → (∃ x, h = .float x) ∨ ∃ n, h = .int n := by
    intro x hx
    cases x <;> cases hx
    exact Or.inl ⟨_, rfl⟩
  unfold numberHead? at hhead
  dsimp only at hhead
  split_ifs at hhead
  · exact hfloat hhead
  · cases hint : integer? negative (Decimal.ofDigits whole) with
    | none =>
      rw [hint] at hhead
      exact hfloat hhead
    | some n =>
      rw [hint] at hhead
      cases hhead
      exact Or.inr ⟨n, rfl⟩

theorem gives_number : Gives (number negative) bs h rest ↔ ∃ whole t fraction t' exponent,
    Gives wholeDigits bs whole t ∧ Gives fractionDigits t fraction t' ∧ Gives exponentPart t' exponent rest ∧
      numberHead? negative whole fraction exponent = some h := by
  have hparts : Gives (number negative) bs h rest ↔ ∃ whole t, Gives wholeDigits bs whole t ∧
      ∃ fraction t', Gives fractionDigits t fraction t' ∧ ∃ exponent t'', Gives exponentPart t' exponent t'' ∧
        (numberHead? negative whole fraction exponent = some h ∧ t'' = rest) := by
    unfold number
    refine gives_bind.trans (exists_congr fun whole => exists_congr fun t => and_congr_right fun _ => ?_)
    refine gives_bind.trans (exists_congr fun fraction => exists_congr fun t' => and_congr_right fun _ => ?_)
    refine gives_bind.trans (exists_congr fun exponent => exists_congr fun t'' => and_congr_right fun _ => ?_)
    unfold numberHead?
    dsimp only
    split_ifs
    · cases Decimal.toBinary .double _ <;> simp [floatHead?]
    · cases integer? negative (Decimal.ofDigits whole) with
      | none => cases Decimal.toBinary .double _ <;> simp [floatHead?]
      | some n => simp
  rw [hparts]
  apply Iff.intro
  · intro h
    obtain ⟨whole, t, hwhole, fraction, t', hfraction, exponent, t'', hexponent, hhead, rfl⟩ := h
    exact ⟨whole, t, fraction, t', exponent, hwhole, hfraction, hexponent, hhead⟩
  · intro h
    obtain ⟨whole, t, fraction, t', exponent, hwhole, hfraction, hexponent, hhead⟩ := h
    exact ⟨whole, t, hwhole, fraction, t', hfraction, exponent, rest, hexponent, hhead, rfl⟩

theorem length_digits (hds : Gives digits bs ds rest) : ds.length + rest.length = bs.length := by
  obtain ⟨run, rfl, rfl, -⟩ := gives_digits.1 hds
  simp [charsOf]

theorem length_afterSign (t : Bytes) : (afterSign t).length ≤ t.length := by
  cases t with
  | nil => exact le_rfl
  | cons s more =>
    unfold afterSign
    dsimp only
    split_ifs
    · exact Nat.le_succ _
    · exact le_rfl

/-- a number has a digit -/
theorem length_number (hnumber : Gives (number negative) bs h rest) : rest.length < bs.length := by
  obtain ⟨whole, t, fraction, t', exponent, hwhole, hfraction, hexponent, -⟩ := gives_number.1 hnumber
  obtain ⟨hwhole, hne, -⟩ := gives_wholeDigits.1 hwhole
  have h1 := length_digits hwhole
  have hpos := List.length_pos_of_ne_nil hne
  have h2 : t'.length ≤ t.length := by
    rcases gives_fractionDigits.1 hfraction with ⟨-, rfl, -⟩ | ⟨u, ds, rfl, hds, -⟩
    · exact le_rfl
    · have := length_digits hds
      rw [List.length_cons]
      omega
  have h3 : rest.length ≤ t'.length := by
    rcases gives_exponentPart.1 hexponent with ⟨-, rfl, -⟩ | ⟨b, u, -, rfl, ds, hds, -⟩
    · exact le_rfl
    · have := length_digits hds
      have := length_afterSign u
      rw [List.length_cons]
      omega
  omega

/-! ## Strings -/

theorem length_scanString {checked : Bool} {place : StringPlace} {found text : List UInt8}
    (hscan : scanString checked place found bs = .ok (text, rest)) : rest.length < bs.length := by
  induction bs generalizing place found with
  | nil => cases hscan
  | cons b tail ih =>
    have step : ∀ {place found}, scanString checked place found tail = .ok (text, rest) →
        rest.length < (b :: tail).length := fun hnext => (ih hnext).trans (Nat.lt_succ_self _)
    cases place with
    | plain =>
      simp only [scanString] at hscan
      split_ifs at hscan
      · cases hscan
        exact Nat.lt_succ_self _
      · exact step hscan
      · exact step hscan
    | escape =>
      simp only [scanString] at hscan
      split_ifs at hscan
      · exact step hscan
      · split at hscan
        · exact step hscan
        · cases hscan
    | hex lead read =>
      simp only [scanString] at hscan
      split_ifs at hscan
      · exact step hscan
      · split at hscan
        · cases hscan
        · split at hscan
          · cases hscan
          · exact step hscan
    | afterLead lead =>
      simp only [scanString] at hscan
      split_ifs at hscan
      exact step hscan
    | afterLeadEscape lead =>
      simp only [scanString] at hscan
      split_ifs at hscan
      exact step hscan

theorem gives_string {s : String} : Gives string bs s rest ↔
    ∃ text, scanString true .plain [] bs = .ok (text, rest) ∧ String.fromUTF8? ⟨text.toArray⟩ = some s := by
  unfold string
  rw [gives_get_bind]
  apply Iff.intro
  · intro hstring
    obtain ⟨⟨text, rest'⟩, mid, hlift, hset⟩ := gives_bind.1 hstring
    obtain ⟨hscan, rfl⟩ := gives_lift.1 hlift
    dsimp only at hset
    rw [gives_set_bind] at hset
    refine ⟨text, ?_⟩
    split at hset
    · rename_i s' hs'
      obtain ⟨rfl, rfl⟩ := gives_pure.1 hset
      exact ⟨hscan, hs'⟩
    · cases gives_fail hset
  · intro h
    obtain ⟨text, hscan, hs⟩ := h
    refine gives_bind.2 ⟨(text, rest), bs, gives_lift.2 ⟨hscan, rfl⟩, ?_⟩
    dsimp only
    rw [gives_set_bind, hs]
    exact gives_pure.2 ⟨rfl, rfl⟩

theorem length_string {s : String} (hstring : Gives string bs s rest) : rest.length < bs.length := by
  obtain ⟨text, hscan, -⟩ := gives_string.1 hstring
  exact length_scanString hscan

/-- plain characters stand for themselves -/
theorem scanString_plain {checked : Bool} {cs : List Char} (hcs : ∀ c ∈ cs, IsPlain c) (found : List UInt8) :
    scanString checked .plain found (cs.map Char.toUInt8 ++ '"'.toUInt8 :: rest) =
      .ok (found.reverse ++ cs.map Char.toUInt8, rest) := by
  induction cs generalizing found with
  | nil =>
    have hchar : Char.ofNat '"'.toUInt8.toNat = '"' := rfl
    simp [scanString, hchar]
  | cons c cs ih =>
    have hascii := (hcs c List.mem_cons_self).ascii
    obtain ⟨hlow, -, hquote, hslash⟩ := hcs c List.mem_cons_self
    have hchar : Char.ofNat c.toUInt8.toNat = c := ofNat_toUInt8 hascii
    have hcontrol : ¬c.toUInt8 < 0x20 := by
      rw [UInt8.lt_iff_toNat_lt, toUInt8_toNat hascii]
      exact not_lt.2 hlow
    rw [List.map_cons, List.cons_append, scanString]
    simp only [hchar, hquote, hslash, hcontrol, ↓reduceIte]
    rw [ih (fun d hd => hcs d (List.mem_cons_of_mem c hd))]
    simp

theorem gives_string_plain {s : String} (hs : PlainText s) :
    Gives string (bytesOf s ++ '"'.toUInt8 :: rest) s rest := by
  refine gives_string.2 ⟨bytesOf s, ?_, fromUTF8?_bytesOf s⟩
  rw [hs.bytesOf, scanString_plain hs]
  rfl

/-! ## Heads -/

theorem gives_word {ws : List UInt8} : Gives (word ws) bs () rest ↔ bs = ws ++ rest := by
  induction ws generalizing bs with
  | nil => exact gives_pure.trans ⟨fun h => h.2, fun h => ⟨rfl, h⟩⟩
  | cons w ws ih =>
    rw [word, gives_get_bind]
    cases bs with
    | nil => exact iff_of_false gives_fail (by simp)
    | cons b tail =>
      by_cases hb : b = w
      · simp only [hb, ↓reduceIte]
        rw [gives_set_bind, ih, List.cons_append, List.cons.injEq]
        exact (and_iff_right rfl).symm
      · simp only [hb, ↓reduceIte, List.cons_append, List.cons.injEq, false_and, iff_false]
        exact gives_fail

/-- a letter, and the rest of its word -/
theorem gives_advance_word {ws : List UInt8} {h' : Head} {b : UInt8} :
    Gives (do advance; word ws; return h') (b :: bs) h rest ↔ h' = h ∧ bs = ws ++ rest := by
  refine gives_advance_cons.trans ?_
  apply Iff.intro
  · intro hgives
    obtain ⟨_, t, hword, hpure⟩ := gives_bind.1 hgives
    obtain ⟨rfl, rfl⟩ := gives_pure.1 hpure
    exact ⟨rfl, gives_word.1 hword⟩
  · intro h
    obtain ⟨rfl, hword⟩ := h
    exact (gives_word.2 hword).bind (gives_pure.2 ⟨rfl, rfl⟩)

/-- the ways in which a value begins -/
inductive HeadText (bs : Bytes) : Head → Bytes → Prop where
  | null {t rest : Bytes} : Shows bs 'n' t → t = "ull".toUTF8.toList ++ rest → HeadText bs .null rest
  | yes {t rest : Bytes} : Shows bs 't' t → t = "rue".toUTF8.toList ++ rest → HeadText bs (.bool true) rest
  | no {t rest : Bytes} : Shows bs 'f' t → t = "alse".toUTF8.toList ++ rest → HeadText bs (.bool false) rest
  | text {t rest : Bytes} {s : String} : Shows bs '"' t → Gives string t s rest → HeadText bs (.str s) rest
  | sequence {rest : Bytes} : Shows bs '[' rest → HeadText bs .sequence rest
  | map {rest : Bytes} : Shows bs '\x7b' rest → HeadText bs .map rest
  | negative {t rest : Bytes} {h : Head} : Shows bs '-' t → Gives (number true) t h rest → HeadText bs h rest
  | natural {t rest : Bytes} {h : Head} {c : Char} : Shows bs c t → c.isDigit = true →
      Gives (number false) (c.toUInt8 :: t) h rest → HeadText bs h rest

/-- **A value begins in exactly these ways.** -/
theorem gives_head : Gives head bs h rest ↔ HeadText bs h rest := by
  unfold head
  apply Iff.intro
  · intro hhead
    rcases gives_peek_bind.1 hhead with ⟨c, t, hc, hf⟩ | ⟨-, hf⟩
    · split at hf
      · cases ‹some c = none›
      · rename_i heq
        cases heq
        obtain ⟨rfl, hword⟩ := gives_advance_word.1 hf
        exact .null hc hword
      · rename_i heq
        cases heq
        obtain ⟨rfl, hword⟩ := gives_advance_word.1 hf
        exact .yes hc hword
      · rename_i heq
        cases heq
        obtain ⟨rfl, hword⟩ := gives_advance_word.1 hf
        exact .no hc hword
      · rename_i heq
        cases heq
        obtain ⟨s, t', hstring, hpure⟩ := gives_bind.1 (gives_advance_cons.1 hf)
        obtain ⟨rfl, rfl⟩ := gives_pure.1 hpure
        exact .text hc hstring
      · rename_i heq
        cases heq
        obtain ⟨rfl, rfl⟩ := gives_advance_pure.1 hf
        exact .sequence hc
      · rename_i heq
        cases heq
        obtain ⟨rfl, rfl⟩ := gives_advance_pure.1 hf
        exact .map hc
      · rename_i heq
        cases heq
        exact .negative hc (gives_advance_cons.1 hf)
      · rename_i heq
        cases heq
        split_ifs at hf with hdigit
        · exact .natural hc hdigit hf
        · cases gives_fail hf
    · cases gives_fail hf
  · intro hhead
    cases hhead with
    | null hc hword => exact hc.peek_bind.2 (gives_advance_word.2 ⟨rfl, hword⟩)
    | yes hc hword => exact hc.peek_bind.2 (gives_advance_word.2 ⟨rfl, hword⟩)
    | no hc hword => exact hc.peek_bind.2 (gives_advance_word.2 ⟨rfl, hword⟩)
    | text hc hstring =>
      exact hc.peek_bind.2 (gives_advance_cons.2 (hstring.bind (gives_pure.2 ⟨rfl, rfl⟩)))
    | sequence hc => exact hc.peek_bind.2 (gives_advance_pure.2 ⟨rfl, rfl⟩)
    | map hc => exact hc.peek_bind.2 (gives_advance_pure.2 ⟨rfl, rfl⟩)
    | negative hc hnumber => exact hc.peek_bind.2 (gives_advance_cons.2 hnumber)
    | natural hc hdigit hnumber =>
      refine hc.peek_bind.2 ?_
      split
      · cases ‹some _ = none›
      all_goals rename_i heq
      all_goals cases heq
      all_goals first
        | exact absurd hdigit (by decide)
        | rw [if_pos hdigit]
          exact hnumber

/-- what begins with a minus is a negative number -/
theorem HeadText.of_minus (hhead : HeadText bs h rest) (hc : Shows bs '-' t) : Gives (number true) t h rest := by
  cases hhead with
  | null hc' _ | yes hc' _ | no hc' _ | text hc' _ | sequence hc' | map hc' =>
    exact absurd (hc.unique hc').1 (by decide)
  | negative hc' hnumber =>
    obtain ⟨-, rfl⟩ := hc.unique hc'
    exact hnumber
  | natural hc' hdigit _ =>
    obtain ⟨rfl, -⟩ := hc.unique hc'
    exact absurd hdigit (by decide)

/-- what begins with a digit is a number -/
theorem HeadText.of_digit {c : Char} (hhead : HeadText bs h rest) (hc : Shows bs c t) (hdigit : c.isDigit = true) :
    Gives (number false) (c.toUInt8 :: t) h rest := by
  cases hhead with
  | null hc' _ | yes hc' _ | no hc' _ | text hc' _ | sequence hc' | map hc' | negative hc' _ =>
    obtain ⟨rfl, -⟩ := hc.unique hc'
    exact absurd hdigit (by decide)
  | natural hc' _ hnumber =>
    obtain ⟨rfl, rfl⟩ := hc.unique hc'
    exact hnumber

theorem length_head (hhead : Gives head bs h rest) : rest.length < bs.length := by
  cases gives_head.1 hhead with
  | null hc hword | yes hc hword | no hc hword =>
    have hlt := hc.length_lt
    rw [hword, List.length_append] at hlt
    omega
  | text hc hstring => exact (length_string hstring).trans hc.length_lt
  | sequence hc => exact hc.length_lt
  | map hc => exact hc.length_lt
  | negative hc hnumber => exact (length_number hnumber).trans hc.length_lt
  | natural hc hdigit hnumber => exact lt_of_lt_of_le (length_number hnumber) hc.length_lt

end PacketForwarder.Json.Reader
