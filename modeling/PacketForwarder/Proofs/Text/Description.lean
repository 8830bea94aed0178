/-
Descriptions over several lines. `lines` says what the lines are: a name with its bracket, then every part with a comma
after it and a level deeper, in order, and the bracket that closes. `block` writes these lines, all but the first one
with the indentation of its level (`block_eq`).
-/
import Mathlib.Tactic
import PacketForwarder.Text.Description

namespace PacketForwarder.Description

/-! ## Lines -/

/-- a line inside of another part -/
def deeper (line : String) : String := "    " ++ line

def withComma : List String → List String
  | [] => []
  | [l] => [l ++ ","]
  | l :: l' :: ls => l :: withComma (l' :: ls)

/-- the name of a field before the first line of its value -/
def named (name : String) : List String → List String
  | [] => []
  | l :: ls => (name ++ ": " ++ l) :: ls

mutual

/-- **The lines of a description** -/
def lines : Description → List String
  | word text => [text]
  | tuple name items => (name ++ "(") :: ((itemLines items).map deeper ++ [")"])
  | record name fields => (name ++ " \x7b") :: ((fieldLines fields).map deeper ++ ["\x7d"])
  | list [] => ["[]"]
  | list (d :: rest) => "[" :: ((itemLines (d :: rest)).map deeper ++ ["]"])

def itemLines : List Description → List String
  | [] => []
  | d :: rest => withComma (lines d) ++ itemLines rest

def fieldLines : List (String × Description) → List String
  | [] => []
  | (name, d) :: rest => withComma (named name (lines d)) ++ fieldLines rest

end

theorem lines_ne_nil (d : Description) : lines d ≠ [] := by
  cases d with
  | list items => cases items <;> simp [lines]
  | _ => simp [lines]

theorem named_ne_nil {name : String} {ls : List String} (h : ls ≠ []) : named name ls ≠ [] := by
  cases ls with
  | nil => exact absurd rfl h
  | cons l ls => simp [named]

/-- the comma goes after the bracket that closes -/
theorem withComma_concat (ls : List String) (right : String) : withComma (ls ++ [right]) = ls ++ [right ++ ","] := by
  induction ls with
  | nil => rfl
  | cons l ls ih =>
    cases ls with
    | nil => rfl
    | cons l' ls => exact congrArg (l :: ·) ih

theorem itemLines_words (words : List String) : itemLines (words.map word) = words.map (· ++ ",") := by
  induction words with
  | nil => rfl
  | cons w words ih =>
    rw [List.map_cons, itemLines, ih, lines, withComma]
    rfl

def fieldLine (name value : String) : String := name ++ ": " ++ value ++ ","

theorem fieldLines_word (name value : String) (rest : List (String × Description)) :
    fieldLines ((name, word value) :: rest) = fieldLine name value :: fieldLines rest := by
  rw [fieldLines, lines, named, withComma]
  rfl

theorem fieldLines_nat (name : String) (n : Nat) (rest : List (String × Description)) :
    fieldLines ((name, nat n) :: rest) = fieldLine name (toString n) :: fieldLines rest :=
  fieldLines_word name (toString n) rest

theorem fieldLines_bool (name : String) (b : Bool) (rest : List (String × Description)) :
    fieldLines ((name, bool b) :: rest) = fieldLine name (toString b) :: fieldLines rest :=
  fieldLines_word name (toString b) rest

/-! ## Blocks -/

/-- lines that all have an indentation and an end -/
def indented (level : Nat) (ls : List String) : String :=
  String.join (ls.map fun l => indentation level ++ l ++ "\n")

/-- what stands between two lines of a block -/
def lineBreak (level : Nat) : String := "\n" ++ indentation level

variable {level : Nat} {l name : String} {ls : List String}

theorem indented_append (level : Nat) (ls ls' : List String) :
    indented level (ls ++ ls') = indented level ls ++ indented level ls' := by
  rw [indented, List.map_append, String.join_append]
  rfl

theorem indentation_succ (level : Nat) : indentation (level + 1) = indentation level ++ "    " := by
  rw [← String.toList_inj]
  simp [indentation, Nat.mul_succ, List.replicate_add]

theorem withComma_ne_nil (h : ls ≠ []) : withComma ls ≠ [] := by
  match ls, h with
  | [l], _ => simp [withComma]
  | l :: l' :: ls, _ => simp [withComma]

theorem intercalate_withComma (sep : String) (h : ls ≠ []) :
    sep.intercalate (withComma ls) = sep.intercalate ls ++ "," := by
  induction ls with
  | nil => exact absurd rfl h
  | cons l ls ih =>
    cases ls with
    | nil => simp [withComma]
    | cons l' ls =>
      have hne := List.cons_ne_nil l' ls
      rw [withComma, String.intercalate_cons_of_ne_nil (withComma_ne_nil hne), ih hne, String.intercalate_cons_cons]
      simp only [String.append_assoc]

theorem intercalate_named (sep : String) (h : ls ≠ []) :
    sep.intercalate (named name ls) = name ++ ": " ++ sep.intercalate ls := by
  cases ls with
  | nil => exact absurd rfl h
  | cons l ls => rw [named, String.intercalate_cons_append]

/-- lines one after the other -/
theorem indented_eq (h : ls ≠ []) :
    indented level ls = indentation level ++ (lineBreak level).intercalate ls ++ "\n" := by
  induction ls with
  | nil => exact absurd rfl h
  | cons l ls ih =>
    cases ls with
    | nil => simp [indented]
    | cons l' ls =>
      have hrest := ih (List.cons_ne_nil l' ls)
      simp only [indented, List.map_cons, String.join_cons] at hrest ⊢
      rw [hrest, String.intercalate_cons_cons, lineBreak]
      simp only [String.append_assoc]

theorem indented_withComma (h : ls ≠ []) :
    indented level (withComma ls) = indentation level ++ (lineBreak level).intercalate ls ++ ",\n" := by
  rw [indented_eq (withComma_ne_nil h), intercalate_withComma _ h]
  simp only [String.append_assoc]
  rfl

theorem intercalate_brackets (level : Nat) (left right : String) (ls : List String) :
    (lineBreak level).intercalate (left :: (ls.map deeper ++ [right])) =
      left ++ "\n" ++ indented (level + 1) ls ++ indentation level ++ right := by
  induction ls generalizing left with
  | nil => simp [indented, lineBreak, String.append_assoc]
  | cons l ls ih =>
    rw [List.map_cons, List.cons_append, String.intercalate_cons_cons, ih]
    simp only [indented, List.map_cons, String.join_cons, lineBreak, deeper, indentation_succ, String.append_assoc]

mutual

/-- **A block is the lines of its description**, with the indentation of the level in front of all but the first. -/
theorem block_eq (level : Nat) : ∀ d : Description, block level d = (lineBreak level).intercalate (lines d)
  | word text => by rw [block, lines, String.intercalate_singleton]
  | tuple name items => by
    rw [block, lines, intercalate_brackets, blockItems_eq]
    simp only [String.append_assoc]
    rfl
  | record name fields => by
    rw [block, lines, intercalate_brackets, blockFields_eq]
    simp only [String.append_assoc]
    rfl
  | list [] => by rw [block, lines, String.intercalate_singleton]
  | list (d :: rest) => by
    rw [block, lines, intercalate_brackets, blockItems_eq]
    rfl

theorem blockItems_eq (level : Nat) : ∀ items, blockItems level items = indented level (itemLines items)
  | [] => rfl
  | d :: rest => by
    rw [blockItems, itemLines, block_eq level d, blockItems_eq level rest, indented_append,
      indented_withComma (lines_ne_nil d)]

theorem blockFields_eq (level : Nat) : ∀ fields, blockFields level fields = indented level (fieldLines fields)
  | [] => rfl
  | (name, d) :: rest => by
    have hne := lines_ne_nil d
    rw [blockFields, fieldLines, block_eq level d, blockFields_eq level rest, indented_append,
      indented_withComma (named_ne_nil hne), intercalate_named _ hne]
    simp only [String.append_assoc]

end

end PacketForwarder.Description
