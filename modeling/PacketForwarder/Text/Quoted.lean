/-
Text in double quotes, as messages show a value from outside: quotes, backslashes and characters that
would not be seen are escaped, every other character stands for itself.
-/
import PacketForwarder.Text.Printable

namespace PacketForwarder

/-- the code point in lower case hexadecimal, without zeros in front -/
def codePointEscape (c : Char) : List Char :=
  "\\u\x7b".toList ++ Nat.toDigits 16 c.toNat ++ ['\x7d']

/-- one character inside the quotes -/
def quoteChar (c : Char) : List Char :=
  match c with
  | '"' => ['\\', '"']
  | '\\' => ['\\', '\\']
  | '\n' => ['\\', 'n']
  | '\r' => ['\\', 'r']
  | '\t' => ['\\', 't']
  | '\x00' => ['\\', '0']
  | c => if isPrintable c then [c] else codePointEscape c

/-- the whole text in quotes -/
def quoted (s : String) : String :=
  String.ofList ('"' :: s.toList.flatMap quoteChar ++ ['"'])

end PacketForwarder
