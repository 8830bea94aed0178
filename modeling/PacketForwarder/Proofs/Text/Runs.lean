/-
Runs at the front of a list. `List.span` takes the longest run of items with a property, so a run is known by what
stands after it: an item without the property, or nothing.
-/
import Mathlib.Tactic
import Mathlib.Data.List.TakeDrop
import Mathlib.Data.List.TakeWhile

namespace PacketForwarder

variable {α : Type} {p : α → Bool} {run rest l : List α}

/-- nothing stands here, or an item without the property -/
def EndsRun (p : α → Bool) (rest : List α) : Prop := ∀ c ∈ rest.head?, p c = false

@[simp]
theorem endsRun_nil : EndsRun p [] := by simp [EndsRun]

@[simp]
theorem endsRun_cons {c : α} {cs : List α} : EndsRun p (c :: cs) ↔ p c = false := by simp [EndsRun]

/-- a whole run is taken, and no more -/
theorem span_run (hrun : ∀ c ∈ run, p c = true) (hrest : EndsRun p rest) : (run ++ rest).span p = (run, rest) := by
  rw [List.span_eq_takeWhile_dropWhile, List.takeWhile_append_of_pos hrun, List.dropWhile_append_of_pos hrun]
  cases rest with
  | nil => simp
  | cons c cs =>
    have hc : p c = false := endsRun_cons.1 hrest
    simp [List.takeWhile, List.dropWhile, hc]

/-- what is taken is a run, and it ends there -/
theorem run_of_span (h : l.span p = (run, rest)) : l = run ++ rest ∧ (∀ c ∈ run, p c = true) ∧ EndsRun p rest := by
  rw [List.span_eq_takeWhile_dropWhile] at h
  obtain ⟨rfl, rfl⟩ := Prod.mk.inj h
  refine ⟨List.takeWhile_append_dropWhile.symm, fun c hc => List.mem_takeWhile_imp hc, ?_⟩
  intro c hc
  have hhead := List.head?_dropWhile_not p l
  rw [Option.mem_def.1 hc] at hhead
  exact hhead

end PacketForwarder
