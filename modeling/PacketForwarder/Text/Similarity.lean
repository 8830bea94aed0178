/-
How alike two words are: the measure of Jaro and Winkler, which counts the characters that the words
share at nearly the same place, those of them that stand in another order, and the characters of a common
beginning. It is taken as an exact fraction.
-/

namespace PacketForwarder.Similarity

/-- The place of a character among places that are not taken and lie in a window. -/
def findPlace (c : Char) (low high : Nat) (taken : List Nat) (word : List Char) : Option Nat :=
  (List.range word.length).find? fun j =>
    low ≤ j && j ≤ high && word[j]? = some c && !taken.contains j

/-- what is shared so far -/
structure Shared where
  matched : Nat
  moved : Nat
  /-- the place of the last shared character in the second word -/
  last : Nat
  taken : List Nat

/-- look for the characters of the first word, one by one, in the second -/
def share (window : Nat) (word : List Char) : Shared → List (Char × Nat) → Shared
  | s, [] => s
  | s, (c, i) :: rest =>
    match findPlace c (i - window) (min (word.length - 1) (i + window)) s.taken word with
    | none => share window word s rest
    | some j =>
      share window word ⟨s.matched + 1, if j < s.last then s.moved + 1 else s.moved, j, j :: s.taken⟩ rest

/-- the share of agreement before the common beginning is counted, as numerator and denominator -/
def agreement (a b : List Char) : Nat × Nat :=
  if a = b then (1, 1)
  else if a.isEmpty || b.isEmpty || (a.length = 1 && b.length = 1) then (0, 1)
  else
    let s := share (max a.length b.length / 2 - 1) b ⟨0, 0, 0, []⟩ a.zipIdx
    let m := s.matched
    if m = 0 then (0, 1)
    else (m * b.length * m + m * a.length * m + (m - s.moved) * a.length * b.length,
      3 * a.length * b.length * m)

/-- how many characters two words begin with in common -/
def commonBeginning : List Char → List Char → Nat
  | a :: as, b :: bs => if a = b then commonBeginning as bs + 1 else 0
  | _, _ => 0

/-- are two words alike: is the measure above four fifths? -/
def alike (a b : String) : Bool :=
  let (n, d) := agreement a.toList b.toList
  4 * (10 * d) < 5 * (10 * n + commonBeginning a.toList b.toList * (d - n))

end PacketForwarder.Similarity
