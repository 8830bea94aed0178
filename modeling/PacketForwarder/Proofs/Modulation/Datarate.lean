/-
The words that name a LoRa datarate, as a grammar. `HasForm` is the form that a word may have: `SF`, a numeral, `BW`, a
numeral, and perhaps a point and a numeral, each for a number of 32 bits. `Spells` adds the bandwidth: the numeral after
`BW` is that of a known one in whole kilohertz, and the fraction is the one that its label has. The factor may be any
natural number there. Leading zeros are accepted in both numerals. `NamesUnknown` is the form with no such bandwidth.

Results:
- `parse_classifies`: a word is accepted, refused for its bandwidth, or refused for its format, each exactly if it is of
  the kind that is described; the spelling that is written is read back.
- `wideDigit_refused`: a digit of another script is none here.

The tables of bandwidths, coding rates and modulations are read back by their names.
-/
import PacketForwarder.Modulation.Basic
import PacketForwarder.Modulation.CodingRate
import PacketForwarder.Modulation.Datarate
import PacketForwarder.Proofs.Number.Decimal
import PacketForwarder.Proofs.Text.Bytes
import PacketForwarder.Proofs.Text.Runs

namespace PacketForwarder

/-! ## Tables -/

theorem key_of_find? {α β : Type} [DecidableEq β] {table : List α} {key : α → β} {b : β} {a : α}
    (h : table.find? (fun a => key a = b) = some a) : b = key a := by
  have hkey : key a = b := by simpa using List.find?_some h
  exact hkey.symm

theorem Modulation.ofWireName?_eq_some {s : String} {m : Modulation} : ofWireName? s = some m ↔ s = m.wireName := by
  apply Iff.intro
  · exact fun h => key_of_find? h
  · rintro rfl
    cases m <;> rfl

theorem CodingRate.ofSpelling?_eq_some {s : String} {c : CodingRate} : ofSpelling? s = some c ↔ s ∈ c.spellings := by
  apply Iff.intro
  · intro h
    simpa using List.find?_some h
  · intro h
    cases c <;> simp only [spellings, List.mem_cons, List.not_mem_nil, or_false] at h <;>
      rcases h with rfl | rfl | rfl <;> rfl

theorem CodingRate.fraction_mem_spellings (c : CodingRate) : c.fraction ∈ c.spellings := by
  cases c <;> decide

theorem Bandwidth.ofWholeKhz?_eq_some {n : Nat} {b : Bandwidth} : ofWholeKhz? n = some b ↔ n = b.wholeKhz := by
  apply Iff.intro
  · exact fun h => key_of_find? h
  · rintro rfl
    cases b <;> rfl

theorem Bandwidth.ofHertz?_eq_some {n : Nat} {b : Bandwidth} : ofHertz? n = some b ↔ n = b.hertz := by
  apply Iff.intro
  · exact fun h => key_of_find? h
  · rintro rfl
    cases b <;> rfl

theorem Bandwidth.ofWholeKhz?_eq_none {n : Nat} : ofWholeKhz? n = none ↔ ∀ b : Bandwidth, b.wholeKhz ≠ n := by
  rw [Option.eq_none_iff_forall_ne_some]
  exact forall_congr' fun b => not_congr (ofWholeKhz?_eq_some.trans eq_comm)

/-! ## Numerals -/

def IsNumeral (ds : List Char) : Prop := ds ≠ [] ∧ ∀ c ∈ ds, c.isDigit = true

theorem isNumeral_toDigits (n : Nat) : IsNumeral (Nat.toDigits 10 n) :=
  ⟨Nat.toDigits_ne_nil, fun _ hc => isDigit_of_mem_toDigits hc⟩

namespace Decimal

theorem natUpTo?_eq_some {max n : Nat} {ds : List Char} :
    natUpTo? max ds = some n ↔ IsNumeral ds ∧ ofDigits ds = n ∧ n ≤ max := by
  unfold natUpTo?
  split_ifs with hbad hmax
  · simp only [Bool.or_eq_true, List.isEmpty_iff, Bool.not_eq_true', List.all_eq_false] at hbad
    refine iff_of_false (by simp) fun ⟨⟨hne, hdigits⟩, _⟩ => ?_
    rcases hbad with hbad | ⟨c, hc, hcd⟩
    · exact hne hbad
    · exact hcd (hdigits c hc)
  · simp only [Bool.or_eq_true, List.isEmpty_iff, Bool.not_eq_true', List.all_eq_false, not_or, not_exists,
      not_and, not_not] at hbad
    rw [Option.some.injEq]
    exact ⟨fun h => ⟨⟨hbad.1, hbad.2⟩, h, h ▸ hmax⟩, fun h => h.2.1⟩
  · exact iff_of_false (by simp) fun ⟨_, h, hle⟩ => hmax (h ▸ hle)

end Decimal

namespace Datarate

open Decimal

theorem number?_eq_some {cs rest : List Char} {n : Nat} :
    number? cs = some (n, rest) ↔
      ∃ ds, cs = ds ++ rest ∧ IsNumeral ds ∧ EndsRun Char.isDigit rest ∧ ofDigits ds = n ∧ n ≤ maxNumber := by
  apply Iff.intro
  · intro h
    unfold number? spanDigits at h
    cases hspan : cs.span Char.isDigit with
    | mk ds tail =>
      rw [hspan] at h
      obtain ⟨m, hm, heq⟩ := Option.map_eq_some_iff.1 h
      cases heq
      obtain ⟨hnum, hval, hmax⟩ := natUpTo?_eq_some.1 hm
      obtain ⟨hcs, -, hrest⟩ := run_of_span hspan
      exact ⟨ds, hcs, hnum, hrest, hval, hmax⟩
  · intro h
    obtain ⟨ds, rfl, hnum, hrest, hval, hmax⟩ := h
    unfold number? spanDigits
    rw [span_run hnum.2 hrest]
    exact Option.map_eq_some_iff.2 ⟨n, natUpTo?_eq_some.2 ⟨hnum, hval, hmax⟩, rfl⟩

theorem fraction?_eq_some {cs f : List Char} :
    fraction? cs = some f ↔ cs = f ∧ (f = [] ∨ ∃ ds, IsNumeral ds ∧ ofDigits ds ≤ maxNumber ∧ f = '.' :: ds) := by
  apply Iff.intro
  · intro h
    unfold fraction? at h
    split at h
    · cases h
      exact ⟨rfl, Or.inl rfl⟩
    · rename_i ds
      obtain ⟨n, hn, rfl⟩ := Option.map_eq_some_iff.1 h
      obtain ⟨hnum, hval, hmax⟩ := natUpTo?_eq_some.1 hn
      exact ⟨rfl, Or.inr ⟨ds, hnum, hval ▸ hmax, rfl⟩⟩
    · cases h
  · intro h
    rcases h with ⟨rfl, rfl | ⟨ds, hnum, hmax, rfl⟩⟩
    · rfl
    · exact Option.map_eq_some_iff.2 ⟨ofDigits ds, natUpTo?_eq_some.2 ⟨hnum, rfl, hmax⟩, rfl⟩

theorem parts?_eq_some {cs f : List Char} {factor khz : Nat} :
    parts? cs = some (factor, khz, f) ↔
      ∃ rest tail, cs = 'S' :: 'F' :: rest ∧ number? rest = some (factor, 'B' :: 'W' :: tail) ∧
        ∃ end_, number? tail = some (khz, end_) ∧ fraction? end_ = some f := by
  apply Iff.intro
  · intro h
    unfold parts? at h
    split at h
    · rename_i rest
      split at h
      · rename_i n tail hn
        split at h
        · rename_i k tail' hk
          obtain ⟨f', hf, heq⟩ := Option.map_eq_some_iff.1 h
          cases heq
          exact ⟨rest, tail, rfl, hn, tail', hk, hf⟩
        · cases h
      · cases h
    · cases h
  · intro h
    obtain ⟨rest, tail, rfl, hn, tail', hk, hf⟩ := h
    simp only [parts?, hn, hk, hf, Option.map_some]

/-! ## The form of a word -/

/-- a numeral for this number, which has 32 bits at most -/
def IsWordNumeral (ds : List Char) (n : Nat) : Prop := IsNumeral ds ∧ ofDigits ds = n ∧ n ≤ maxNumber

/-- **The form of a datarate**: `SF`, a numeral, `BW`, a numeral, and then nothing or a point and a numeral. -/
def HasForm (word : String) (factor khz : Nat) (fraction : List Char) : Prop :=
  ∃ d k, word.toList = 'S' :: 'F' :: d ++ 'B' :: 'W' :: k ++ fraction ∧ IsWordNumeral d factor ∧ IsWordNumeral k khz ∧
    (fraction = [] ∨ ∃ e n, IsWordNumeral e n ∧ fraction = '.' :: e)

/-- **A word is taken apart if and only if it has the form.** -/
theorem parts?_eq_some_iff_form {word : String} {factor khz : Nat} {f : List Char} :
    parts? word.toList = some (factor, khz, f) ↔ HasForm word factor khz f := by
  apply Iff.intro
  · intro h
    obtain ⟨rest, tail, hword, hfactor, tail', hkhz, hfrac⟩ := parts?_eq_some.1 h
    obtain ⟨d, rfl, hd, -, hdval, hdmax⟩ := number?_eq_some.1 hfactor
    obtain ⟨k, rfl, hk, -, hkval, hkmax⟩ := number?_eq_some.1 hkhz
    obtain ⟨rfl, hshape⟩ := fraction?_eq_some.1 hfrac
    refine ⟨d, k, by simpa using hword, ⟨hd, hdval, hdmax⟩, ⟨hk, hkval, hkmax⟩, hshape.imp_right ?_⟩
    rintro ⟨e, he, hmax, rfl⟩
    exact ⟨e, ofDigits e, ⟨he, rfl, hmax⟩, rfl⟩
  · intro h
    obtain ⟨d, k, hword, ⟨hd, hdval, hdmax⟩, ⟨hk, hkval, hkmax⟩, hshape⟩ := h
    have hend : EndsRun Char.isDigit f := by
      rcases hshape with rfl | ⟨e, n, -, rfl⟩ <;> simp
    have hfactor : number? (d ++ 'B' :: 'W' :: (k ++ f)) = some (factor, 'B' :: 'W' :: (k ++ f)) :=
      number?_eq_some.2 ⟨d, rfl, hd, by simp, hdval, hdmax⟩
    have hkhz : number? (k ++ f) = some (khz, f) := number?_eq_some.2 ⟨k, rfl, hk, hend, hkval, hkmax⟩
    have hfrac : fraction? f = some f := by
      refine fraction?_eq_some.2 ⟨rfl, hshape.imp_right ?_⟩
      rintro ⟨e, n, ⟨he, hval, hmax⟩, rfl⟩
      exact ⟨e, he, hval ▸ hmax, rfl⟩
    exact parts?_eq_some.2 ⟨_, _, by simpa using hword, hfactor, f, hkhz, hfrac⟩

theorem HasForm.factor_le {word : String} {factor khz : Nat} {f : List Char} (h : HasForm word factor khz f) :
    factor ≤ maxNumber := by
  obtain ⟨d, k, -, ⟨-, -, hmax⟩, -⟩ := h
  exact hmax

theorem HasForm.ascii {word : String} {factor khz : Nat} {f : List Char} (h : HasForm word factor khz f) {c : Char}
    (hc : c ∈ word.toList) : c.toNat < 128 := by
  obtain ⟨d, k, hword, ⟨hd, -⟩, ⟨hk, -⟩, hshape⟩ := h
  have digit : ∀ {ds : List Char}, IsNumeral ds → c ∈ ds → c.toNat < 128 :=
    fun hds hmem => (plain_of_isDigit (hds.2 c hmem)).ascii
  rw [hword] at hc
  simp only [List.mem_append, List.mem_cons] at hc
  rcases hc with ((rfl | rfl | hc) | rfl | rfl | hc) | hc
  · decide
  · decide
  · exact digit hd hc
  · decide
  · decide
  · exact digit hk hc
  · rcases hshape with rfl | ⟨e, n, ⟨he, -⟩, rfl⟩
    · cases hc
    · rcases List.mem_cons.1 hc with rfl | hc
      · decide
      · exact digit he hc

/-! ## The words that are accepted -/

/-- **The words for a datarate**: `SF`, a numeral for the factor, `BW`, a numeral for the whole kilohertz of a known
bandwidth, and perhaps a fraction that makes them its label. -/
def Spells (word : String) (factor : Nat) (b : Bandwidth) : Prop :=
  ∃ d k f, word.toList = 'S' :: 'F' :: d ++ 'B' :: 'W' :: k ++ f ∧ IsNumeral d ∧ ofDigits d = factor ∧
    IsNumeral k ∧ ofDigits k = b.wholeKhz ∧
    (f = [] ∨ ((∃ ds, IsNumeral ds ∧ f = '.' :: ds) ∧ toString b.wholeKhz ++ String.ofList f = b.label))

/-- the fraction of a label, if there is one, is a single digit -/
theorem label_toList (b : Bandwidth) : b.label.toList = Nat.toDigits 10 b.wholeKhz ++
    (if b.hertz % 1000 / 100 = 0 then [] else '.' :: Nat.toDigits 10 (b.hertz % 1000 / 100)) := by
  unfold Bandwidth.label
  dsimp only
  split_ifs with h
  · simp
  · simp
    rfl

/-- a fraction that makes the whole kilohertz the label spells less than ten -/
theorem ofDigits_fraction {b : Bandwidth} {ds : List Char}
    (h : toString b.wholeKhz ++ String.ofList ('.' :: ds) = b.label) : ofDigits ds < 10 := by
  have hlist := congrArg String.toList h
  rw [label_toList, String.toList_append, String.toList_ofList, Nat.toString_eq_ofList_toDigits,
    String.toList_ofList, List.append_cancel_left_eq] at hlist
  split_ifs at hlist
  · obtain ⟨-, rfl⟩ := List.cons.inj hlist
    rw [ofDigits_toDigits]
    omega

theorem wholeKhz_le (b : Bandwidth) : b.wholeKhz ≤ maxNumber := by
  cases b <;> decide

/-- What is spelled has the form, where the factor has 32 bits; the fraction is the one of the label. -/
theorem spells_iff_form {word : String} {factor : Nat} {b : Bandwidth} (hmax : factor ≤ maxNumber) :
    Spells word factor b ↔
      ∃ f, HasForm word factor b.wholeKhz f ∧ (f = [] ∨ toString b.wholeKhz ++ String.ofList f = b.label) := by
  apply Iff.intro
  · intro h
    obtain ⟨d, k, f, hword, hd, hdval, hk, hkval, hf⟩ := h
    refine ⟨f, ⟨d, k, hword, ⟨hd, hdval, hmax⟩, ⟨hk, hkval, wholeKhz_le b⟩, hf.imp_right ?_⟩, hf.imp_right And.right⟩
    rintro ⟨⟨e, he, rfl⟩, hlabel⟩
    have hlt := ofDigits_fraction hlabel
    exact ⟨e, ofDigits e, ⟨he, rfl, by unfold maxNumber; omega⟩, rfl⟩
  · intro h
    obtain ⟨f, ⟨d, k, hword, ⟨hd, hdval, -⟩, ⟨hk, hkval, -⟩, hshape⟩, hlabel⟩ := h
    refine ⟨d, k, f, hword, hd, hdval, hk, hkval, ?_⟩
    rcases hshape with rfl | ⟨e, n, ⟨he, -⟩, rfl⟩
    · exact Or.inl rfl
    · exact Or.inr ⟨⟨e, he, rfl⟩, hlabel.resolve_left (by simp)⟩

/-- **Exactly these words are accepted**: those for a factor of 32 bits. -/
theorem parse_eq_ok_iff {word : String} {d : Datarate} :
    parse word = .ok d ↔ Spells word d.spreadingFactor.toNat d.bandwidth := by
  rw [spells_iff_form (Nat.le_of_lt_succ d.spreadingFactor.toNat_lt)]
  apply Iff.intro
  · intro h
    unfold parse at h
    split at h
    · cases h
    rename_i factor khz f hparts
    split at h
    · cases h
    rename_i b hb
    split_ifs at h with hf
    cases h
    obtain rfl := Bandwidth.ofWholeKhz?_eq_some.1 hb
    have hform := parts?_eq_some_iff_form.1 hparts
    have hword32 : (UInt32.ofNat factor).toNat = factor :=
      UInt32.toNat_ofNat_of_lt' (Nat.lt_of_le_of_lt hform.factor_le (by decide))
    rw [hword32]
    exact ⟨f, hform, hf⟩
  · intro h
    obtain ⟨f, hform, hf⟩ := h
    have hb : Bandwidth.ofWholeKhz? d.bandwidth.wholeKhz = some d.bandwidth := Bandwidth.ofWholeKhz?_eq_some.2 rfl
    unfold parse
    rw [parts?_eq_some_iff_form.2 hform]
    simp only [hb]
    rw [if_pos hf, UInt32.ofNat_toNat]

/-! ## The words that are not -/

/-- **A word that names no bandwidth**: it has the form, but no bandwidth has these whole kilohertz. -/
def NamesUnknown (word : String) (khz : Nat) : Prop :=
  (∃ factor f, HasForm word factor khz f) ∧ ∀ b : Bandwidth, b.wholeKhz ≠ khz

/-- **Exactly these words are refused for their bandwidth**, whatever the fraction. -/
theorem parse_eq_bandwidth_iff {word : String} {khz : Nat} :
    parse word = .error (.bandwidth khz) ↔ NamesUnknown word khz := by
  apply Iff.intro
  · intro h
    unfold parse at h
    split at h
    · cases h
    rename_i factor khz' f hparts
    split at h
    · rename_i hnone
      cases h
      exact ⟨⟨factor, f, parts?_eq_some_iff_form.1 hparts⟩, Bandwidth.ofWholeKhz?_eq_none.1 hnone⟩
    · split_ifs at h
      cases h
  · intro h
    obtain ⟨⟨factor, f, hform⟩, hunknown⟩ := h
    unfold parse
    rw [parts?_eq_some_iff_form.2 hform]
    simp only [Bandwidth.ofWholeKhz?_eq_none.2 hunknown]

/-- the fraction of an unknown bandwidth is not compared with anything -/
example : parse "SF7BW128.5" = .error (.bandwidth 128) := by decide

/-- every other word is refused for its form -/
theorem parse_eq_format_iff {word : String} : parse word = .error .format ↔
    (∀ d : Datarate, ¬ Spells word d.spreadingFactor.toNat d.bandwidth) ∧ ∀ khz, ¬ NamesUnknown word khz := by
  simp only [← parse_eq_ok_iff, ← parse_eq_bandwidth_iff]
  cases parse word with
  | ok d => exact iff_of_false (by simp) fun h => h.1 d rfl
  | error e =>
    cases e with
    | format => simp
    | bandwidth khz => exact iff_of_false (by simp) fun h => h.2 khz rfl

/-- a word with a character outside ASCII is one of them -/
theorem parse_eq_format_of_not_ascii {word : String} {c : Char} (hc : c ∈ word.toList) (hcode : 128 ≤ c.toNat) :
    parse word = .error .format := by
  have hform : ∀ {factor khz f}, ¬ HasForm word factor khz f := fun h => absurd (h.ascii hc) (not_lt.2 hcode)
  refine parse_eq_format_iff.2 ⟨fun d h => ?_, fun khz h => ?_⟩
  · obtain ⟨f, h, -⟩ := (spells_iff_form (Nat.le_of_lt_succ d.spreadingFactor.toNat_lt)).1 h
    exact hform h
  · obtain ⟨⟨factor, f, h⟩, -⟩ := h
    exact hform h

/-! ## The written word -/

theorem text_toList (d : Datarate) : d.text.toList =
    'S' :: 'F' :: Nat.toDigits 10 d.spreadingFactor.toNat ++ 'B' :: 'W' :: d.bandwidth.label.toList := by
  simp [text, Bandwidth.datarateLabel]
  rfl

theorem spells_text (d : Datarate) : Spells d.text d.spreadingFactor.toNat d.bandwidth := by
  have hlabel := label_toList d.bandwidth
  refine ⟨Nat.toDigits 10 d.spreadingFactor.toNat, Nat.toDigits 10 d.bandwidth.wholeKhz,
    d.bandwidth.label.toList.drop (Nat.toDigits 10 d.bandwidth.wholeKhz).length, ?_, isNumeral_toDigits _,
    ofDigits_toDigits _, isNumeral_toDigits _, ofDigits_toDigits _, ?_⟩
  · rw [text_toList, hlabel, List.drop_left]
    simp
  · rw [hlabel, List.drop_left]
    split_ifs with h
    · exact Or.inl rfl
    · refine Or.inr ⟨⟨_, isNumeral_toDigits _, rfl⟩, ?_⟩
      rw [← String.toList_inj, hlabel, if_neg h]
      simp

theorem parse_text (d : Datarate) : parse d.text = .ok d := parse_eq_ok_iff.2 (spells_text d)

theorem text_plain (d : Datarate) : PlainText d.text := by
  intro c hc
  rw [text_toList, label_toList] at hc
  simp only [List.mem_append, List.mem_cons] at hc
  have digit : ∀ {n : Nat}, c ∈ Nat.toDigits 10 n → IsPlain c := fun h => plain_of_isDigit (isDigit_of_mem_toDigits h)
  rcases hc with (rfl | rfl | hc) | rfl | rfl | hc | hc
  · decide
  · decide
  · exact digit hc
  · decide
  · decide
  · exact digit hc
  · split_ifs at hc
    · cases hc
    · rcases List.mem_cons.1 hc with rfl | hc
      · decide
      · exact digit hc

/-! ## All words -/

/-- **Every word is of one of three kinds**: it spells a datarate, it names an unknown bandwidth, or its format is at
fault, as in every word with a character outside ASCII. What is written for a datarate is read as this datarate. -/
theorem parse_classifies (word : String) :
    (∀ d : Datarate, parse word = .ok d ↔ Spells word d.spreadingFactor.toNat d.bandwidth) ∧
    (∀ khz, parse word = .error (.bandwidth khz) ↔ NamesUnknown word khz) ∧
    (parse word = .error .format ↔
      (∀ d : Datarate, ¬ Spells word d.spreadingFactor.toNat d.bandwidth) ∧ ∀ khz, ¬ NamesUnknown word khz) ∧
    (∀ c ∈ word.toList, 128 ≤ c.toNat → parse word = .error .format) ∧
    ∀ d : Datarate, parse d.text = .ok d := by
  refine ⟨fun d => parse_eq_ok_iff, fun khz => parse_eq_bandwidth_iff, parse_eq_format_iff, fun c hc hcode => ?_,
    fun d => parse_text d⟩
  exact parse_eq_format_of_not_ascii hc hcode

/-- a digit of another script is no digit here -/
theorem wideDigit_refused : '\uff17' ∈ "SF\uff17BW125".toList ∧ 128 ≤ '\uff17'.toNat ∧
    parse "SF\uff17BW125" = .error .format :=
  ⟨by decide, by decide, (parse_classifies "SF\uff17BW125").2.2.2.1 '\uff17' (by decide) (by decide)⟩

end Datarate

end PacketForwarder
