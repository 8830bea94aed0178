/-
JSON text without blanks: members in the order in which the object holds them, numbers and strings in
the one spelling that the printer knows.
-/
import PacketForwarder.Json.Value

namespace PacketForwarder.Json

/-- one character inside a string: only the quote, the backslash and controls are escaped -/
def escapeChar (c : Char) : List Char :=
  match c with
  | '"' => ['\\', '"']
  | '\\' => ['\\', '\\']
  | '\x08' => ['\\', 'b']
  | '\x0c' => ['\\', 'f']
  | '\n' => ['\\', 'n']
  | '\r' => ['\\', 'r']
  | '\t' => ['\\', 't']
  | c =>
    if c.toNat < 0x20 then "\\u00".toList ++ [Nat.digitChar (c.toNat / 16), Nat.digitChar (c.toNat % 16)]
    else [c]

/-- a string with its quotes -/
def printString (s : String) : String :=
  String.ofList ('"' :: s.toList.flatMap escapeChar ++ ['"'])

mutual

/-- the text of a value -/
def compact : Json → String
  | .null => "null"
  | .bool b => toString b
  | .int n => toString n
  | .float x => jsonFloatStyle.number x
  | .str s => printString s
  | .arr items => "[" ++ compactItems items ++ "]"
  | .obj members => "\x7b" ++ compactMembers members ++ "\x7d"

/-- the items of an array, with commas between them -/
def compactItems : List Json → String
  | [] => ""
  | [v] => compact v
  | v :: rest => compact v ++ "," ++ compactItems rest

/-- the members of an object, with commas between them -/
def compactMembers : List (String × Json) → String
  | [] => ""
  | [(k, v)] => printString k ++ ":" ++ compact v
  | (k, v) :: rest => printString k ++ ":" ++ compact v ++ "," ++ compactMembers rest

end

end PacketForwarder.Json
