/-
Descriptions of values: names, fields and items as a tree. A description is written on one line, or
spread over lines with an indentation of four blanks and a comma after every part.
-/

namespace PacketForwarder

/-- the description of a value -/
inductive Description where
  | word (text : String)
  /-- a name with items in round brackets -/
  | tuple (name : String) (items : List Description)
  /-- a name with named fields in braces -/
  | record (name : String) (fields : List (String × Description))
  /-- items in square brackets -/
  | list (items : List Description)

namespace Description

mutual

/-- the description on one line -/
def line : Description → String
  | word text => text
  | tuple name items => name ++ "(" ++ lineItems items ++ ")"
  | record name fields => name ++ " \x7b " ++ lineFields fields ++ " \x7d"
  | list items => "[" ++ lineItems items ++ "]"

def lineItems : List Description → String
  | [] => ""
  | [d] => line d
  | d :: rest => line d ++ ", " ++ lineItems rest

def lineFields : List (String × Description) → String
  | [] => ""
  | [(name, d)] => name ++ ": " ++ line d
  | (name, d) :: rest => name ++ ": " ++ line d ++ ", " ++ lineFields rest

end

/-- four blanks for each level -/
def indentation (level : Nat) : String := String.ofList (List.replicate (4 * level) ' ')

mutual

/-- The description over several lines; `level` is the indentation of the line on which it begins. A list
without items stays on its line. -/
def block (level : Nat) : Description → String
  | word text => text
  | tuple name items => name ++ "(\n" ++ blockItems (level + 1) items ++ indentation level ++ ")"
  | record name fields =>
    name ++ " \x7b\n" ++ blockFields (level + 1) fields ++ indentation level ++ "\x7d"
  | list [] => "[]"
  | list (d :: rest) => "[\n" ++ blockItems (level + 1) (d :: rest) ++ indentation level ++ "]"

def blockItems (level : Nat) : List Description → String
  | [] => ""
  | d :: rest => indentation level ++ block level d ++ ",\n" ++ blockItems level rest

def blockFields (level : Nat) : List (String × Description) → String
  | [] => ""
  | (name, d) :: rest =>
    indentation level ++ name ++ ": " ++ block level d ++ ",\n" ++ blockFields level rest

end

def nat (n : Nat) : Description := word (toString n)

def bool (b : Bool) : Description := word (toString b)

/-- a value that may be missing -/
def option : Option Description → Description
  | none => word "None"
  | some d => tuple "Some" [d]

/-- bytes as numbers -/
def bytes (bs : List UInt8) : Description := list (bs.map fun b => nat b.toNat)

end Description

end PacketForwarder
