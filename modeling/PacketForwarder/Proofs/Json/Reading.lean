/-
Successful reads. `Gives r bs a rest` says that a reader takes bytes from the front of `bs`, gives `a` and leaves
`rest`; a read is taken apart step by step (`gives_bind`), and for each small reader there is one lemma that says when
it succeeds. `Shows bs c rest` says that after blanks the character `c` stands at the front, which is all that a reader
asks before it decides what to do.

`Mirrors r bs x rest` compares a reader with a computation that reads nothing: on these bytes the reader succeeds
exactly if the computation does, with its result. What fault is reported is left open.
-/
import Mathlib.Tactic
import Mathlib.Data.List.DropRight
import PacketForwarder.Json.Reader
import PacketForwarder.Proofs.Outcome
import PacketForwarder.Proofs.Text.Bytes

namespace PacketForwarder.Json.Reader

variable {α β : Type} {bs mid rest left : Bytes} {a : α} {b : β} {r : Reader α} {f : α → Reader β}

/-! ## Successful reads -/

/-- the reader gives a result and leaves the rest of the bytes -/
def Gives (r : Reader α) (bs : Bytes) (a : α) (rest : Bytes) : Prop := r.run bs = .ok (a, rest)

/-- a reader gives one result -/
theorem Gives.unique {a' : α} (h : Gives r bs a rest) (h' : Gives r bs a' left) : a = a' ∧ rest = left := by
  unfold Gives at h h'
  rw [h] at h'
  simpa using h'

theorem gives_bind : Gives (r >>= f) bs b rest ↔ ∃ a mid, Gives r bs a mid ∧ Gives (f a) mid b rest := by
  unfold Gives
  rw [StateT.run_bind, Outcome.bind_eq_ok]
  apply Iff.intro
  · intro h
    obtain ⟨⟨a, mid⟩, h, h'⟩ := h
    exact ⟨a, mid, h, h'⟩
  · intro h
    obtain ⟨a, mid, h, h'⟩ := h
    exact ⟨(a, mid), h, h'⟩

theorem Gives.bind (h : Gives r bs a mid) (h' : Gives (f a) mid b rest) : Gives (r >>= f) bs b rest :=
  gives_bind.2 ⟨a, mid, h, h'⟩

/-- once a step has given its result, what follows decides -/
theorem Gives.bind_iff (h : Gives r bs a mid) : Gives (r >>= f) bs b rest ↔ Gives (f a) mid b rest := by
  refine ⟨fun h' => ?_, h.bind⟩
  obtain ⟨a', mid', h1, h2⟩ := gives_bind.1 h'
  obtain ⟨rfl, rfl⟩ := h.unique h1
  exact h2

@[simp]
theorem gives_pure {a' : α} : Gives (pure a' : Reader α) bs a rest ↔ a' = a ∧ bs = rest := by
  simp [Gives]

@[simp]
theorem gives_fail {fault : TextFault} : ¬Gives (fail fault : Reader α) bs a rest := by
  simp [Gives, fail]

@[simp]
theorem gives_throw {fault : Fault} : ¬Gives (throw fault : Reader α) bs a rest := by
  simp [Gives]

/-- a check reads nothing -/
@[simp]
theorem gives_lift {x : Except Fault α} : Gives (liftM x : Reader α) bs a rest ↔ x = .ok a ∧ bs = rest := by
  cases x with
  | error e => simp [Gives]
  | ok a' => simp [Gives]

theorem gives_map {g : α → β} : Gives (g <$> r) bs b rest ↔ ∃ a, Gives r bs a rest ∧ g a = b := by
  rw [← bind_pure_comp, gives_bind]
  apply Iff.intro
  · intro h
    obtain ⟨a, mid, h, h'⟩ := h
    obtain ⟨hb, rfl⟩ := gives_pure.1 h'
    exact ⟨a, h, hb⟩
  · intro h
    obtain ⟨a, h, hb⟩ := h
    exact ⟨a, rest, h, gives_pure.2 ⟨hb, rfl⟩⟩

@[simp]
theorem gives_get {s : Bytes} : Gives (get : Reader Bytes) bs s rest ↔ bs = s ∧ bs = rest := by
  simp [Gives]

@[simp]
theorem gives_set {s : Bytes} : Gives (set s : Reader Unit) bs () rest ↔ s = rest := by
  simp [Gives]

@[simp]
theorem gives_advance : Gives advance bs () rest ↔ bs.drop 1 = rest := by
  simp [Gives, advance]

/-- the bytes at hand decide what is done with them -/
theorem gives_get_bind {f : Bytes → Reader β} : Gives (get >>= f) bs b rest ↔ Gives (f bs) bs b rest :=
  Gives.bind_iff (gives_get.2 ⟨rfl, rfl⟩)

theorem gives_advance_cons {c : UInt8} {f : PUnit → Reader β} :
    Gives (advance >>= f) (c :: bs) b rest ↔ Gives (f ⟨⟩) bs b rest :=
  Gives.bind_iff (gives_advance.2 rfl)

theorem gives_advance_pure {c : UInt8} {a' : α} :
    Gives (do advance; return a') (c :: bs) a rest ↔ a' = a ∧ bs = rest :=
  gives_advance_cons.trans gives_pure

theorem gives_set_bind {s : Bytes} {f : PUnit → Reader β} : Gives (set s >>= f) bs b rest ↔ Gives (f ⟨⟩) s b rest :=
  Gives.bind_iff (gives_set.2 rfl)

/-! ## The next character -/

/-- after blanks, a character and then the rest -/
def Shows (bs : Bytes) (c : Char) (rest : Bytes) : Prop :=
  bs.dropWhile isBlank = c.toUInt8 :: rest ∧ c.toNat < 256

/-- no more than blanks -/
def Blank (bs : Bytes) : Prop := bs.dropWhile isBlank = []

theorem toUInt8_ofNat (b : UInt8) : (Char.ofNat b.toNat).toUInt8 = b ∧ (Char.ofNat b.toNat).toNat < 256 := by
  have hb := b.toNat_lt
  have hvalid : b.toNat.isValidChar := Or.inl (by omega)
  have hnat : (Char.ofNat b.toNat).toNat = b.toNat := by
    rw [Char.ofNat, dif_pos hvalid]
    rfl
  refine ⟨?_, by omega⟩
  apply UInt8.toNat_inj.1
  have : (Char.ofNat b.toNat).toUInt8.toNat = (Char.ofNat b.toNat).toNat % 256 := rfl
  omega

theorem ofNat_toUInt8_of_lt {c : Char} (h : c.toNat < 256) : Char.ofNat c.toUInt8.toNat = c := by
  have : c.toUInt8.toNat = c.toNat % 256 := rfl
  rw [this, Nat.mod_eq_of_lt h, Char.ofNat_toNat]

/-- after blanks there is a character or nothing -/
theorem shows_or_blank (bs : Bytes) : (∃ c rest, Shows bs c rest) ∨ Blank bs := by
  cases h : bs.dropWhile isBlank with
  | nil => exact Or.inr h
  | cons b rest =>
    obtain ⟨hb, hlt⟩ := toUInt8_ofNat b
    exact Or.inl ⟨Char.ofNat b.toNat, rest, by rw [h, hb], hlt⟩

theorem Shows.unique {c c' : Char} (h : Shows bs c rest) (h' : Shows bs c' left) : c = c' ∧ rest = left := by
  have heq := h.1.symm.trans h'.1
  obtain ⟨hbyte, hrest⟩ := List.cons.inj heq
  refine ⟨?_, hrest⟩
  rw [← ofNat_toUInt8_of_lt h.2, hbyte, ofNat_toUInt8_of_lt h'.2]

theorem Shows.not_blank {c : Char} (h : Shows bs c rest) : ¬Blank bs := by
  intro hblank
  exact List.cons_ne_nil _ _ (h.1.symm.trans hblank)

/-- a character that is no blank shows itself -/
theorem shows_cons {c : Char} (hc : c.toNat < 256) (h : isBlank c.toUInt8 = false) :
    Shows (c.toUInt8 :: rest) c rest := by
  refine ⟨?_, hc⟩
  rw [List.dropWhile_cons, h]
  rfl

theorem Shows.length_lt {c : Char} (h : Shows bs c rest) : rest.length < bs.length := by
  have hle := (List.dropWhile_sublist isBlank (l := bs)).length_le
  rw [h.1] at hle
  exact hle

theorem length_dropWhile_le : (bs.dropWhile isBlank).length ≤ bs.length :=
  (List.dropWhile_sublist isBlank).length_le

theorem gives_peek {c : Option Char} : Gives peek bs c rest ↔
    bs.dropWhile isBlank = rest ∧ (rest.head?.map fun b => Char.ofNat b.toNat) = c := by
  unfold Gives peek
  simp only [StateT.run_bind, StateT.run_modify, StateT.run_get, Outcome.ok_bind, StateT.run_pure,
    Outcome.pure_eq_ok, Except.ok.injEq, Prod.mk.injEq]
  apply Iff.intro
  · intro h
    obtain ⟨rfl, rfl⟩ := h
    exact ⟨rfl, rfl⟩
  · intro h
    obtain ⟨rfl, rfl⟩ := h
    exact ⟨rfl, rfl⟩

/-- what is done after a look at the next character -/
theorem Shows.peek_bind {c : Char} {f : Option Char → Reader β} (h : Shows bs c mid) :
    Gives (peek >>= f) bs b rest ↔ Gives (f (some c)) (c.toUInt8 :: mid) b rest := by
  refine Gives.bind_iff (gives_peek.2 ⟨h.1, ?_⟩)
  rw [List.head?_cons, Option.map_some, ofNat_toUInt8_of_lt h.2]

theorem Blank.peek_bind {f : Option Char → Reader β} (h : Blank bs) :
    Gives (peek >>= f) bs b rest ↔ Gives (f none) [] b rest :=
  Gives.bind_iff (gives_peek.2 ⟨h, rfl⟩)

/-- a look at the next character is a look at what the bytes show -/
theorem gives_peek_bind {f : Option Char → Reader β} : Gives (peek >>= f) bs b rest ↔
    (∃ c t, Shows bs c t ∧ Gives (f (some c)) (c.toUInt8 :: t) b rest) ∨ (Blank bs ∧ Gives (f none) [] b rest) := by
  apply Iff.intro
  · intro hf
    rcases shows_or_blank bs with ⟨c, t, h⟩ | h
    · exact Or.inl ⟨c, t, h, h.peek_bind.1 hf⟩
    · exact Or.inr ⟨h, h.peek_bind.1 hf⟩
  · intro h
    rcases h with ⟨c, t, h, hf⟩ | ⟨h, hf⟩
    · exact h.peek_bind.2 hf
    · exact h.peek_bind.2 hf

theorem gives_colon : Gives colon bs () rest ↔ Shows bs ':' rest := by
  apply Iff.intro
  · intro hcolon
    rcases gives_peek_bind.1 hcolon with ⟨c, t, h, hf⟩ | ⟨-, hf⟩
    · split at hf
      · rename_i heq
        cases heq
        rwa [← gives_advance.1 hf]
      · cases gives_fail hf
      · cases gives_fail hf
    · cases gives_fail hf
  · intro h
    exact h.peek_bind.2 (gives_advance.2 rfl)

theorem gives_finish : Gives finish bs () rest ↔ Blank bs ∧ rest = [] := by
  apply Iff.intro
  · intro hfinish
    rcases gives_peek_bind.1 hfinish with ⟨c, t, -, hf⟩ | ⟨h, hf⟩
    · cases gives_fail hf
    · exact ⟨h, (gives_pure.1 hf).2.symm⟩
  · intro h
    obtain ⟨h, rfl⟩ := h
    exact h.peek_bind.2 (gives_pure.2 ⟨rfl, rfl⟩)

/-! ## Readers and computations -/

/-- On these bytes the reader succeeds exactly if the computation does, with its result, and leaves the rest. -/
def Mirrors (r : Reader α) (bs : Bytes) (x : Except Fault α) (rest : Bytes) : Prop :=
  ∀ a left, Gives r bs a left ↔ x = .ok a ∧ left = rest

theorem Gives.mirrors (h : Gives r bs a rest) : Mirrors r bs (.ok a) rest := by
  intro a' left
  apply Iff.intro
  · intro h'
    obtain ⟨rfl, rfl⟩ := h.unique h'
    exact ⟨rfl, rfl⟩
  · intro h'
    obtain ⟨ha, rfl⟩ := h'
    cases ha
    exact h

theorem Mirrors.gives {x : Except Fault α} (h : Mirrors r bs x rest) (hx : x = .ok a) : Gives r bs a rest :=
  (h a rest).2 ⟨hx, rfl⟩

theorem mirrors_error {e : Fault} (h : ∀ a left, ¬Gives r bs a left) : Mirrors r bs (.error e) rest := by
  intro a left
  exact iff_of_false (h a left) fun h' => by cases h'.1

/-- a check before a read -/
theorem mirrors_lift (x : Except Fault α) : Mirrors (liftM x) bs x bs := by
  intro a left
  rw [gives_lift]
  exact and_congr_right fun _ => eq_comm

theorem Mirrors.bind {x : Except Fault α} {g : α → Except Fault β} (h : Mirrors r bs x mid)
    (h' : ∀ a, x = .ok a → Mirrors (f a) mid (g a) rest) : Mirrors (r >>= f) bs (x >>= g) rest := by
  intro b left
  rw [gives_bind]
  apply Iff.intro
  · intro h'
    obtain ⟨a, mid', h1, h2⟩ := h'
    obtain ⟨rfl, rfl⟩ := (h a mid').1 h1
    exact (h' a rfl b left).1 h2
  · intro h'
    obtain ⟨hb, rfl⟩ := h'
    obtain ⟨a, rfl, hg⟩ := Outcome.bind_eq_ok.1 hb
    exact ⟨a, mid, h.gives rfl, (h' a rfl).gives hg⟩

/-- a step whose result is known leaves the rest to be compared -/
theorem Gives.mirrors_bind {x : Except Fault β} (h : Gives r bs a mid) (h' : Mirrors (f a) mid x rest) :
    Mirrors (r >>= f) bs x rest := by
  intro b left
  rw [h.bind_iff]
  exact h' b left

theorem mirrors_throw_bind {fault e : Fault} : Mirrors ((throw fault : Reader α) >>= f) bs (.error e) rest := by
  refine mirrors_error fun b left h => ?_
  obtain ⟨a, mid, hthrow, -⟩ := gives_bind.1 h
  exact gives_throw hthrow

theorem Mirrors.map {x : Except Fault α} {g : α → β} (h : Mirrors r bs x rest) :
    Mirrors (g <$> r) bs (g <$> x) rest := by
  intro b left
  rw [gives_map, Outcome.map_eq_ok]
  apply Iff.intro
  · intro h'
    obtain ⟨a, ha, rfl⟩ := h'
    obtain ⟨rfl, rfl⟩ := (h a left).1 ha
    exact ⟨⟨a, rfl, rfl⟩, rfl⟩
  · intro h'
    obtain ⟨⟨a, rfl, rfl⟩, rfl⟩ := h'
    exact ⟨a, h.gives rfl, rfl⟩

end PacketForwarder.Json.Reader
