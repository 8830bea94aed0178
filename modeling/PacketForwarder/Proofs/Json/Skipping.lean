/-
Passing over a value. `skipValue` keeps the open brackets on a stack and looks at strings and numbers only for their
form, so it accepts more than the reader of values; what it is needed for is the other direction (`gives_skipValue`):
every value that is read can be passed over, and the same bytes are left.

The steps are counted. `Passes n` says that `n` steps of the scan lead from one place to another whatever comes after
them, and a value takes no more steps than it has bytes, so the count of steps that `skipValue` allows is enough.
-/
import PacketForwarder.Json.Skip
import PacketForwarder.Proofs.Json.Rounds
import PacketForwarder.Proofs.Json.Scalars

namespace PacketForwarder.Json.Reader

variable {bs t next rest : Bytes} {h : Head} {v : Json} {fuel depth : Nat}

/-! ## Strings -/

/-- where a scan stands that does not care about surrogates -/
def StringPlace.unchecked : StringPlace → StringPlace
  | plain => plain
  | escape => escape
  | hex _ read => hex none read
  | afterLead _ => plain
  | afterLeadEscape _ => escape

theorem afterHex_unchecked {lead : Option Nat} {unit : Nat} {more : List UInt8} {place : StringPlace}
    (hafter : afterHex true lead unit = .ok (more, place)) : place.unchecked = .plain := by
  have hplain : ∀ {bytes : List UInt8} {p : StringPlace}, p.unchecked = .plain →
      (Except.ok (bytes, p) : Except Fault (List UInt8 × StringPlace)) = .ok (more, place) →
      place.unchecked = .plain := by
    intro bytes p hp heq
    rw [← (Prod.mk.inj (Except.ok.inj heq)).2]
    exact hp
  unfold afterHex at hafter
  rw [Bool.not_true, if_neg Bool.false_ne_true] at hafter
  cases lead with
  | none =>
    dsimp only at hafter
    split_ifs at hafter
    · exact hplain rfl hafter
    · exact hplain rfl hafter
  | some lead =>
    dsimp only at hafter
    split_ifs at hafter
    exact hplain rfl hafter

/-- what a checked scan does, an unchecked one follows -/
theorem scanString_unchecked {place : StringPlace} {found text : List UInt8}
    (hscan : scanString true place found bs = .ok (text, rest)) (found' : List UInt8) :
    ∃ text', scanString false place.unchecked found' bs = .ok (text', rest) := by
  induction bs generalizing place found found' with
  | nil => cases hscan
  | cons b tail ih =>
    cases place with
    | plain =>
      simp only [scanString] at hscan
      simp only [StringPlace.unchecked, scanString]
      split_ifs at hscan ⊢
      · cases hscan
        exact ⟨_, rfl⟩
      · exact ih hscan found'
      · exact ih hscan _
    | escape =>
      simp only [scanString] at hscan
      simp only [StringPlace.unchecked, scanString]
      split_ifs at hscan ⊢
      · exact ih hscan found'
      · split at hscan
        · exact ih hscan _
        · cases hscan
    | hex lead read =>
      simp only [scanString] at hscan
      simp only [StringPlace.unchecked, scanString]
      split_ifs at hscan ⊢
      · exact ih hscan found'
      · split at hscan
        · cases hscan
        · rename_i unit hunit
          split at hscan
          · cases hscan
          · rename_i more place hafter
            have hplace := afterHex_unchecked hafter
            obtain ⟨text', htext⟩ := ih hscan found'
            rw [hplace] at htext
            exact ⟨text', by simpa [hunit, afterHex] using htext⟩
    | afterLead lead =>
      simp only [scanString] at hscan
      simp only [StringPlace.unchecked, scanString]
      split_ifs at hscan with hslash
      have hquote : Char.ofNat b.toNat ≠ '"' := by
        rw [hslash]
        decide
      rw [if_neg hquote, if_pos hslash]
      exact ih hscan found'
    | afterLeadEscape lead =>
      simp only [scanString] at hscan
      simp only [StringPlace.unchecked, scanString]
      split_ifs at hscan with hu
      rw [if_pos hu]
      exact ih hscan found'

theorem gives_skipString {s : String} (hstring : Gives string bs s rest) : Gives skipString bs () rest := by
  obtain ⟨text, hscan, -⟩ := gives_string.1 hstring
  obtain ⟨text', hscan'⟩ := scanString_unchecked hscan []
  unfold skipString
  refine gives_get_bind.2 (gives_bind.2 ⟨(text', rest), bs, gives_lift.2 ⟨hscan', rfl⟩, ?_⟩)
  exact gives_set.2 rfl

/-! ## Numbers -/

theorem gives_skipDigits {ds : List Char} (hds : Gives digits bs ds rest) (hne : ds ≠ []) :
    Gives skipDigits bs () rest := by
  refine hds.bind ?_
  rw [if_neg (by simpa using hne)]
  exact gives_pure.2 ⟨rfl, rfl⟩

/-- a number is passed over part by part -/
theorem gives_skipNumber {whole : List Char} {fraction : Option (List Char)} {exponent : Option Int} {t t' : Bytes}
    (hwhole : Gives wholeDigits bs whole t) (hfraction : Gives fractionDigits t fraction t')
    (hexponent : Gives exponentPart t' exponent rest) : Gives skipNumber bs () rest := by
  obtain ⟨hdigits, hne, hzero⟩ := gives_wholeDigits.1 hwhole
  unfold skipNumber
  extract_lets skipLast skipExponent skipFraction
  refine hdigits.bind ?_
  rw [if_neg (by simpa [hne] using hzero)]
  have hafter : Gives (skipExponent ()) t' () rest := by
    refine gives_get_bind.2 ?_
    rcases gives_exponentPart.1 hexponent with ⟨-, rfl, hnone⟩ | ⟨b, u, hletter, rfl, ds, hds, hne, -⟩
    · cases rest with
      | nil => exact gives_pure.2 ⟨rfl, rfl⟩
      | cons b u =>
        have hb : ¬(b = 'e'.toUInt8 ∨ b = 'E'.toUInt8) := hnone b rfl
        simp only [hb, ↓reduceIte]
        exact gives_pure.2 ⟨rfl, rfl⟩
    · have hb : b = 'e'.toUInt8 ∨ b = 'E'.toUInt8 := hletter
      simp only [hb, ↓reduceIte]
      cases u with
      | nil => exact gives_set_bind.2 (gives_skipDigits hds hne)
      | cons s more => exact gives_set_bind.2 (gives_skipDigits hds hne)
  refine gives_get_bind.2 ?_
  rcases gives_fractionDigits.1 hfraction with ⟨-, rfl, hnone⟩ | ⟨u, ds, rfl, hds, hne, -⟩
  · cases t' with
    | nil => exact hafter
    | cons b u =>
      have hb : b ≠ '.'.toUInt8 := fun heq => hnone (congrArg some heq)
      simp only [hb, ↓reduceIte]
      exact hafter
  · simp only [↓reduceIte]
    exact gives_set_bind.2 ((gives_skipDigits hds hne).bind hafter)

/-! ## Heads -/

def bracket? : Head → Option Bracket
  | .sequence => some .square
  | .map => some .curly
  | _ => none

theorem gives_skipHead_number {c : Char} (hc : Shows bs c t) (hdigit : c.isDigit = true)
    (hnumber : Gives skipNumber (c.toUInt8 :: t) () rest) : Gives skipHead bs none rest := by
  unfold skipHead
  refine hc.peek_bind.2 ?_
  split
  · cases ‹some _ = none›
  all_goals rename_i heq
  all_goals cases heq
  all_goals first
    | exact absurd hdigit (by decide)
    | rw [if_pos hdigit]
      exact hnumber.bind (gives_pure.2 ⟨rfl, rfl⟩)

theorem gives_skipHead_negative (hc : Shows bs '-' t) (hnumber : Gives skipNumber t () rest) :
    Gives skipHead bs none rest :=
  hc.peek_bind.2 (gives_advance_cons.2 (hnumber.bind (gives_pure.2 ⟨rfl, rfl⟩)))

theorem gives_skipHead_string (hc : Shows bs '"' t) (hstring : Gives skipString t () rest) :
    Gives skipHead bs none rest :=
  hc.peek_bind.2 (gives_advance_cons.2 (hstring.bind (gives_pure.2 ⟨rfl, rfl⟩)))

theorem bracket?_of_number {negative : Bool} (hnumber : Gives (number negative) bs h rest) : bracket? h = none := by
  obtain ⟨whole, t, fraction, t', exponent, -, -, -, hhead⟩ := gives_number.1 hnumber
  rcases numberHead?_cases hhead with ⟨x, rfl⟩ | ⟨i, rfl⟩
  · rfl
  · rfl

/-- a head that is read can be passed over -/
theorem gives_skipHead (hhead : Gives head bs h rest) : Gives skipHead bs (bracket? h) rest := by
  cases gives_head.1 hhead with
  | null hc hword | yes hc hword | no hc hword =>
    exact hc.peek_bind.2 (gives_advance_cons.2 ((gives_word.2 hword).bind (gives_pure.2 ⟨rfl, rfl⟩)))
  | text hc hstring => exact gives_skipHead_string hc (gives_skipString hstring)
  | sequence hc => exact hc.peek_bind.2 (gives_advance_pure.2 ⟨rfl, rfl⟩)
  | map hc => exact hc.peek_bind.2 (gives_advance_pure.2 ⟨rfl, rfl⟩)
  | negative hc hnumber =>
    rw [bracket?_of_number hnumber]
    obtain ⟨whole, t, fraction, t', exponent, hwhole, hfraction, hexponent, -⟩ := gives_number.1 hnumber
    exact gives_skipHead_negative hc (gives_skipNumber hwhole hfraction hexponent)
  | natural hc hdigit hnumber =>
    rw [bracket?_of_number hnumber]
    obtain ⟨whole, t, fraction, t', exponent, hwhole, hfraction, hexponent, -⟩ := gives_number.1 hnumber
    exact gives_skipHead_number hc hdigit (gives_skipNumber hwhole hfraction hexponent)

theorem gives_skipKey {key : String} {t' : Bytes} (hquote : Shows bs '"' t) (hkey : Gives string t key t')
    (hcolon : Shows t' ':' rest) : Gives skipKey bs () rest :=
  hquote.peek_bind.2 (gives_advance_cons.2 ((gives_skipString hkey).bind (gives_colon.2 hcolon)))

/-! ## Steps -/

section Steps

variable {stack : List Bracket} {bracket : Bracket}

theorem step_scalar (hhead : Gives skipHead bs none rest) :
    Gives (skipStep stack .beforeValue) bs (some (stack, .afterValue)) rest := by
  rw [skipStep]
  exact hhead.bind (gives_pure.2 ⟨rfl, rfl⟩)

theorem step_empty (hhead : Gives skipHead bs (some bracket) t) (hclose : Shows t bracket.close rest) :
    Gives (skipStep stack .beforeValue) bs (some (stack, .afterValue)) rest := by
  rw [skipStep]
  refine hhead.bind (hclose.peek_bind.2 ?_)
  dsimp only
  rw [if_pos rfl]
  exact gives_advance_pure.2 ⟨rfl, rfl⟩

theorem step_openList (hhead : Gives skipHead bs (some .square) t) (hsome : ¬Blank t)
    (hopen : ∀ tail, ¬Shows t ']' tail) :
    Gives (skipStep stack .beforeValue) bs (some (.square :: stack, .beforeValue)) (t.dropWhile isBlank) := by
  rw [skipStep]
  refine hhead.bind ?_
  rcases shows_or_blank t with ⟨c, tail, h⟩ | h
  · refine h.peek_bind.2 ?_
    have hne : c ≠ Bracket.square.close := by
      rintro rfl
      exact hopen tail h
    dsimp only
    rw [if_neg hne, if_neg (by decide), h.1]
    exact gives_pure.2 ⟨rfl, rfl⟩
  · exact absurd h hsome

theorem step_openObject {t' : Bytes} (hhead : Gives skipHead bs (some .curly) t) (hquote : Shows t '"' t')
    (hkey : Gives skipKey ('"'.toUInt8 :: t') () rest) :
    Gives (skipStep stack .beforeValue) bs (some (.curly :: stack, .beforeValue)) rest := by
  rw [skipStep]
  refine hhead.bind (hquote.peek_bind.2 ?_)
  dsimp only
  rw [if_neg (by decide), if_pos rfl]
  exact hkey.bind (gives_pure.2 ⟨rfl, rfl⟩)

theorem step_nextItem (hcomma : Shows bs ',' rest) :
    Gives (skipStep (.square :: stack) .afterValue) bs (some (.square :: stack, .beforeValue)) rest := by
  rw [skipStep]
  refine hcomma.peek_bind.2 ?_
  dsimp only
  rw [if_pos rfl, if_neg (by decide)]
  exact gives_advance_pure.2 ⟨rfl, rfl⟩

theorem step_nextMember (hcomma : Shows bs ',' next) (hkey : Gives skipKey next () rest) :
    Gives (skipStep (.curly :: stack) .afterValue) bs (some (.curly :: stack, .beforeValue)) rest := by
  rw [skipStep]
  refine hcomma.peek_bind.2 ?_
  dsimp only
  rw [if_pos rfl, if_pos rfl]
  exact gives_advance_cons.2 (hkey.bind (gives_pure.2 ⟨rfl, rfl⟩))

theorem step_close (hclose : Shows bs bracket.close rest) :
    Gives (skipStep (bracket :: stack) .afterValue) bs (some (stack, .afterValue)) rest := by
  rw [skipStep]
  refine hclose.peek_bind.2 ?_
  have hne : bracket.close ≠ ',' := by cases bracket <;> decide
  dsimp only
  rw [if_neg hne, if_pos rfl]
  exact gives_advance_pure.2 ⟨rfl, rfl⟩

end Steps

/-! ## Runs -/

/-- `n` steps lead from one place to another, whatever comes after them -/
def Passes (n : Nat) (stack : List Bracket) (place : SkipPlace) (bs : Bytes) (stack' : List Bracket)
    (place' : SkipPlace) (rest : Bytes) : Prop :=
  ∀ k, skipFrom (n + k) stack place bs = skipFrom k stack' place' rest

section Runs

variable {stack stack' stack'' : List Bracket} {place place' place'' : SkipPlace} {m n : Nat}

theorem passes_one (hstep : Gives (skipStep stack place) bs (some (stack', place')) rest) :
    Passes 1 stack place bs stack' place' rest := by
  intro k
  unfold Gives at hstep
  rw [Nat.add_comm, skipFrom, hstep]

theorem Passes.trans (h : Passes m stack place bs stack' place' t)
    (h' : Passes n stack' place' t stack'' place'' rest) :
    Passes (m + n) stack place bs stack'' place'' rest := by
  intro k
  rw [Nat.add_assoc, h, h']

theorem Passes.of_dropWhile (h : Passes n stack .beforeValue (bs.dropWhile isBlank) stack' place' rest) (hn : 0 < n) :
    Passes n stack .beforeValue bs stack' place' rest := by
  have hpeek : peek.run (bs.dropWhile isBlank) = peek.run bs := by
    simp [peek, List.dropWhile_idempotent]
  have hstep : (skipStep stack .beforeValue).run (bs.dropWhile isBlank) = (skipStep stack .beforeValue).run bs := by
    simp only [skipStep, skipHead, StateT.run_bind, hpeek]
  intro k
  obtain ⟨m, rfl⟩ := Nat.exists_eq_succ_of_ne_zero hn.ne'
  rw [← h k, Nat.succ_add, skipFrom, skipFrom, hstep]

end Runs

/-- The scan passes over a value, wherever it stands, in at most as many steps as the value has bytes. -/
def Skips (bs rest : Bytes) : Prop :=
  ∃ n, 0 < n ∧ n + rest.length ≤ bs.length ∧ ∀ stack, Passes n stack .beforeValue bs stack .afterValue rest

theorem Skips.length_lt (h : Skips bs rest) : rest.length < bs.length := by
  obtain ⟨n, hn, hlen, -⟩ := h
  omega

theorem skips_scalar (hhead : Gives head bs h rest) (hscalar : bracket? h = none) : Skips bs rest := by
  have hskip := gives_skipHead hhead
  rw [hscalar] at hskip
  refine ⟨1, Nat.one_pos, ?_, fun stack => passes_one (step_scalar hskip)⟩
  have := length_head hhead
  omega

/-- the items of an array and its closing bracket -/
theorem skips_items {α : Type} {val : Bytes → α → Bytes → Prop} {vs : List α}
    (hval : ∀ {bs v rest}, val bs v rest → Skips bs rest) (htext : ItemsText val bs vs rest) :
    ∃ n, 0 < n ∧ n + rest.length ≤ bs.length ∧
      ∀ stack, Passes n (.square :: stack) .beforeValue bs stack .afterValue rest := by
  induction htext with
  | last hv hend =>
    obtain ⟨n, hn, hlen, hpass⟩ := hval hv
    have hlt := hend.length_lt
    refine ⟨n + 1, by omega, by omega, fun stack => ?_⟩
    exact (hpass _).trans (passes_one (step_close hend))
  | more hv hcomma hopen htext ih =>
    rename_i next rest _ _
    obtain ⟨n, hn, hlen, hpass⟩ := hval hv
    obtain ⟨m, hm, hlen', hpass'⟩ := ih
    have hlt := hcomma.length_lt
    have hle : (next.dropWhile isBlank).length ≤ next.length := length_dropWhile_le
    refine ⟨n + 1 + m, by omega, by omega, fun stack => ?_⟩
    exact ((hpass _).trans (passes_one (step_nextItem hcomma))).trans ((hpass' stack).of_dropWhile hm)

/-- the members of an object, from the value of the first one, and its closing brace -/
theorem skips_members {α : Type} {val : Bytes → α → Bytes → Prop} {ms : List (String × α)}
    (hval : ∀ {bs v rest}, val bs v rest → Skips bs rest) (htext : MembersText val bs ms rest) :
    ∃ key t t' n, Gives string bs key t ∧ Shows t ':' t' ∧ 0 < n ∧ n + rest.length ≤ t'.length ∧
      ∀ stack, Passes n (.curly :: stack) .beforeValue t' stack .afterValue rest := by
  induction htext with
  | last hm hend =>
    obtain ⟨t, t', hkey, hcolon, hv⟩ := hm
    obtain ⟨n, hn, hlen, hpass⟩ := hval hv
    have hlt := hend.length_lt
    refine ⟨_, t, t', n + 1, hkey, hcolon, by omega, by omega, fun stack => ?_⟩
    exact (hpass _).trans (passes_one (step_close hend))
  | more hm hcomma hquote htext ih =>
    obtain ⟨t, t', hkey, hcolon, hv⟩ := hm
    obtain ⟨n, hn, hlen, hpass⟩ := hval hv
    obtain ⟨key, u, u', m, hkey', hcolon', hm, hlen', hpass'⟩ := ih
    have h1 := hcomma.length_lt
    have h2 := hquote.length_lt
    have h3 := length_string hkey'
    have h4 := hcolon'.length_lt
    refine ⟨_, t, t', n + 1 + m, hkey, hcolon, by omega, by omega, fun stack => ?_⟩
    exact ((hpass _).trans (passes_one (step_nextMember hcomma (gives_skipKey hquote hkey' hcolon')))).trans
      (hpass' stack)

theorem skips_list {α : Type} {val : Bytes → α → Bytes → Prop} {vs : List α}
    (hval : ∀ {bs v rest}, val bs v rest → Skips bs rest) (hhead : Gives head bs .sequence t)
    (htext : ListText val t vs rest) : Skips bs rest := by
  have hlen := length_head hhead
  have hskip : Gives skipHead bs (some .square) t := gives_skipHead hhead
  rcases htext with ⟨-, hend⟩ | ⟨hsome, hopen, hitems⟩
  · have hlt := hend.length_lt
    exact ⟨1, Nat.one_pos, by omega, fun stack => passes_one (step_empty hskip hend)⟩
  · obtain ⟨n, hn, hle, hpass⟩ := skips_items hval hitems
    have hblanks : (t.dropWhile isBlank).length ≤ t.length := length_dropWhile_le
    refine ⟨1 + n, by omega, by omega, fun stack => ?_⟩
    exact (passes_one (step_openList hskip hsome hopen)).trans (hpass stack)

theorem skips_object {α : Type} {val : Bytes → α → Bytes → Prop} {ms : List (String × α)}
    (hval : ∀ {bs v rest}, val bs v rest → Skips bs rest) (hhead : Gives head bs .map t)
    (htext : ObjectText val t ms rest) : Skips bs rest := by
  have hlen := length_head hhead
  have hskip : Gives skipHead bs (some .curly) t := gives_skipHead hhead
  rcases htext with ⟨-, hend⟩ | ⟨u, hquote, hmembers⟩
  · have hlt := hend.length_lt
    exact ⟨1, Nat.one_pos, by omega, fun stack => passes_one (step_empty hskip hend)⟩
  · obtain ⟨key, w, w', n, hkey, hcolon, hn, hle, hpass⟩ := skips_members hval hmembers
    have h1 := hquote.length_lt
    have h2 := length_string hkey
    have h3 := hcolon.length_lt
    have hskipKey : Gives skipKey ('"'.toUInt8 :: u) () w' :=
      gives_skipKey (shows_cons (by decide) (by decide)) hkey hcolon
    refine ⟨1 + n, by omega, by omega, fun stack => ?_⟩
    exact (passes_one (step_openObject hskip hquote hskipKey)).trans (hpass stack)

theorem bracket?_of_scalar (hscalar : v.IsScalar) : bracket? v.head = none := by
  cases v with
  | arr vs => exact absurd rfl hscalar.1
  | obj ms => exact absurd rfl hscalar.2
  | null | bool | int | float | str => rfl

/-- **Every value that is read can be passed over.** -/
theorem skips_value (hv : Gives (value fuel depth) bs v rest) : Skips bs rest := by
  induction depth generalizing bs v rest with
  | zero =>
    obtain ⟨hscalar, hhead⟩ := gives_value_zero.1 hv
    exact skips_scalar hhead (bracket?_of_scalar hscalar)
  | succ depth ih =>
    rcases gives_value_succ.1 hv with ⟨hscalar, hhead⟩ | ⟨t, vs, hhead, -, htext, -⟩ | ⟨t, ms, hhead, -, htext, -⟩
    · exact skips_scalar hhead (bracket?_of_scalar hscalar)
    · exact skips_list ih hhead htext
    · exact skips_object ih hhead htext

theorem gives_skipValue (h : Skips bs rest) (hfuel : bs.length ≤ fuel) : Gives (skipValue fuel) bs () rest := by
  obtain ⟨n, -, hlen, hpass⟩ := h
  obtain ⟨k, hk⟩ : ∃ k, 2 * fuel + 2 = n + (k + 1) := ⟨2 * fuel + 1 - n, by omega⟩
  have hrun : skipFrom (2 * fuel + 2) [] .beforeValue bs = .ok rest := by
    rw [hk, hpass, skipFrom]
    rfl
  unfold skipValue
  exact gives_get_bind.2 (gives_bind.2 ⟨rest, bs, gives_lift.2 ⟨hrun, rfl⟩, gives_set.2 rfl⟩)

end PacketForwarder.Json.Reader
