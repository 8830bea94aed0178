/-
What is said in a dialogue with a radio. An exchange is a call with its answer. `Dialogue.Held` says which exchanges a
dialogue consists of if these answers are given, and what it comes to then; it leaves the radio out, so it is about
every one that ever gives these answers.

Results:
- `held_bind`: what is said in one dialogue after the other is what is said in the first, and then in the second.
- `holdWith_eq_iff`: a dialogue that is run with a radio that has a state is held by the exchanges that go with the
  answers of this radio, and by no others.
- `always_of_held`: what holds by whatever answers holds of every run with such a radio (`Always`).
-/
import Mathlib.Tactic
import PacketForwarder.Radio.Dialogue

namespace PacketForwarder

variable {ε σ α β : Type}

structure Exchange (ε : Type) where
  call : RadioCall
  reply : call.Reply ε

/-- a radio whose answers depend on its state, which each call may change -/
abbrev Radio (ε σ : Type) := (c : RadioCall) → StateM σ (c.Reply ε)

/-- a radio goes from a state to another one with these calls, and gives these answers to them -/
inductive Radio.Answers (radio : Radio ε σ) : σ → List (Exchange ε) → σ → Prop where
  | nil (s : σ) : Answers radio s [] s
  | cons {s s' s'' : σ} {c : RadioCall} {reply : c.Reply ε} {es : List (Exchange ε)}
      (first : (radio c).run s = (reply, s')) (rest : Answers radio s' es s'') : Answers radio s (⟨c, reply⟩ :: es) s''

namespace Dialogue

variable {d : Dialogue ε α} {es : List (Exchange ε)} {a a' : α} {b : β}

/-- **A dialogue is held** by its calls with these answers, in this order, and comes to this result. -/
inductive Held : Dialogue ε α → List (Exchange ε) → α → Prop where
  | done (a : α) : Held (.done a) [] a
  | note {line : LogLine} {rest : Dialogue ε α} {es : List (Exchange ε)} {a : α} (h : Held rest es a) :
      Held (.note line rest) es a
  | call {c : RadioCall} {next : c.Reply ε → Dialogue ε α} {reply : c.Reply ε} {es : List (Exchange ε)} {a : α}
      (h : Held (next reply) es a) : Held (.call c next) (⟨c, reply⟩ :: es) a

/-! ## Forms of dialogue -/

theorem held_done : Held (.done a : Dialogue ε α) es a' ↔ es = [] ∧ a' = a := by
  apply Iff.intro
  · intro h
    cases h
    exact ⟨rfl, rfl⟩
  · rintro ⟨rfl, rfl⟩
    exact .done _

theorem held_pure : Held (pure a : Dialogue ε α) es a' ↔ es = [] ∧ a' = a := held_done

theorem held_note {line : LogLine} : Held (.note line d) es a ↔ Held d es a := by
  apply Iff.intro
  · intro h
    cases h with
    | note h => exact h
  · exact .note

theorem held_call {c : RadioCall} {next : c.Reply ε → Dialogue ε α} :
    Held (.call c next) es a ↔ ∃ reply es', es = ⟨c, reply⟩ :: es' ∧ Held (next reply) es' a := by
  apply Iff.intro
  · intro h
    cases h with
    | call h => exact ⟨_, _, rfl, h⟩
  · rintro ⟨reply, es', rfl, h⟩
    exact .call h

/-- **What is said in one dialogue after the other** is what is said in each. -/
theorem held_bind {f : α → Dialogue ε β} :
    Held (d >>= f) es b ↔ ∃ es₁ es₂ a, es = es₁ ++ es₂ ∧ Held d es₁ a ∧ Held (f a) es₂ b := by
  change Held (d.bind f) es b ↔ _
  induction d generalizing es with
  | done a =>
    apply Iff.intro
    · exact fun h => ⟨[], es, a, rfl, .done a, h⟩
    · rintro ⟨es₁, es₂, a', rfl, h, hf⟩
      obtain ⟨rfl, rfl⟩ := held_done.1 h
      exact hf
  | note line rest ih =>
    simp only [Dialogue.bind, held_note, ih]
  | call c next ih =>
    simp only [Dialogue.bind, held_call, ih]
    apply Iff.intro
    · -- the exchange of the call goes to the part of the first dialogue
      rintro ⟨reply, es', rfl, es₁, es₂, a, rfl, h, hf⟩
      exact ⟨⟨c, reply⟩ :: es₁, es₂, a, rfl, ⟨reply, es₁, rfl, h⟩, hf⟩
    · rintro ⟨es₁, es₂, a, rfl, ⟨reply, es', rfl, h⟩, hf⟩
      exact ⟨reply, es' ++ es₂, rfl, es', es₂, a, rfl, h, hf⟩

theorem held_map {f : α → β} : Held (f <$> d) es b ↔ ∃ a, Held d es a ∧ b = f a := by
  change Held (d >>= fun a => pure (f a)) es b ↔ _
  rw [held_bind]
  simp only [held_pure]
  apply Iff.intro
  · rintro ⟨es₁, es₂, a, rfl, h, rfl, rfl⟩
    exact ⟨a, (List.append_nil es₁).symm ▸ h, rfl⟩
  · rintro ⟨a, h, rfl⟩
    exact ⟨es, [], a, (List.append_nil es).symm, h, rfl, rfl⟩

theorem map_bind {γ : Type} (d : Dialogue ε α) (f : α → Dialogue ε β) (g : β → γ) :
    g <$> (d >>= f) = d >>= fun a => g <$> f a := by
  change (d.bind f).bind _ = d.bind _
  induction d with
  | done a => rfl
  | note line rest ih => exact congrArg (Dialogue.note line) ih
  | call c next ih => exact congrArg (Dialogue.call c) (funext ih)

/-- a call comes first in what is said after it -/
theorem held_ask_bind {c : RadioCall} {f : c.Reply ε → Dialogue ε β} :
    Held (ask c >>= f) es b ↔ ∃ reply es', es = ⟨c, reply⟩ :: es' ∧ Held (f reply) es' b := held_call

theorem held_ask {c : RadioCall} {reply : c.Reply ε} : Held (ask c) es reply ↔ es = [⟨c, reply⟩] := by
  apply Iff.intro
  · intro h
    obtain ⟨reply', es', rfl, hdone⟩ := held_call.1 h
    obtain ⟨rfl, rfl⟩ := held_done.1 hdone
    rfl
  · rintro rfl
    exact .call (.done reply)

/-- to write to the log is to say nothing -/
theorem held_log_bind {line : LogLine} {f : Unit → Dialogue ε β} : Held (log line >>= f) es b ↔ Held (f ()) es b :=
  held_note

theorem held_logAll_bind {lines : List LogLine} {f : Unit → Dialogue ε β} :
    Held (logAll lines >>= f) es b ↔ Held (f ()) es b := by
  induction lines with
  | nil => exact Iff.rfl
  | cons line lines ih => exact held_note.trans ih

/-! ## With a radio -/

/-- hold a dialogue with a radio in a state, without the log -/
def holdWith (radio : Radio ε σ) (d : Dialogue ε α) (s : σ) : α × σ := (d.run radio fun _ => pure ()).run s

/-- **A dialogue with a radio is held by the exchanges that this radio answers.** -/
theorem holdWith_eq_iff {radio : Radio ε σ} {s s' : σ} :
    d.holdWith radio s = (a, s') ↔ ∃ es, Held d es a ∧ radio.Answers s es s' := by
  induction d generalizing s with
  | done a₀ =>
    apply Iff.intro
    · intro h
      obtain ⟨rfl, rfl⟩ : a₀ = a ∧ s = s' := Prod.mk.inj h
      exact ⟨[], .done a₀, .nil s⟩
    · rintro ⟨es, h, hradio⟩
      obtain ⟨rfl, rfl⟩ := held_done.1 h
      cases hradio
      rfl
  | note line rest ih =>
    simp only [held_note, ← ih]
    rfl
  | call c next ih =>
    have hstep : (Dialogue.call c next).holdWith radio s =
        (next ((radio c).run s).1).holdWith radio ((radio c).run s).2 := rfl
    rw [hstep, ih]
    apply Iff.intro
    · rintro ⟨es, h, hradio⟩
      exact ⟨_, .call h, .cons rfl hradio⟩
    · rintro ⟨es, h, hradio⟩
      obtain ⟨reply, es', rfl, hnext⟩ := held_call.1 h
      cases hradio with
      | cons first hrest =>
        rw [first]
        exact ⟨es', hnext, hrest⟩

/-- **In every run** of a dialogue this holds of its exchanges and its result: by whatever answers, and so with every
radio that has a state. -/
def Always (d : Dialogue ε α) (Q : List (Exchange ε) → α → Prop) : Prop :=
  (∀ es a, Held d es a → Q es a) ∧
  ∀ (σ : Type) (radio : Radio ε σ) (s : σ), ∃ es, Held d es (d.holdWith radio s).1 ∧
    radio.Answers s es (d.holdWith radio s).2 ∧ Q es (d.holdWith radio s).1

theorem always_of_held {Q : List (Exchange ε) → α → Prop} (h : ∀ es a, Held d es a → Q es a) : d.Always Q := by
  refine ⟨h, fun σ radio s => ?_⟩
  have hrun : d.holdWith radio s = ((d.holdWith radio s).1, (d.holdWith radio s).2) := rfl
  obtain ⟨es, hheld, hanswers⟩ := holdWith_eq_iff.1 hrun
  exact ⟨es, hheld, hanswers, h es _ hheld⟩

end Dialogue

end PacketForwarder
