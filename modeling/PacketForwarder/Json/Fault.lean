/-
Why a JSON text, or a value in it, is refused. `TextFault` is a fault of the text itself; the other
constructors of `Fault` say what is wrong with a value, read from text or not, for the record that it
should become.
-/
import PacketForwarder.Json.Value

namespace PacketForwarder.Json

/-- a fault of the text -/
inductive TextFault where
  | endInValue
  | endInList
  | endInObject
  | endInString
  | valueExpected
  | wordExpected
  | colonExpected
  | commaOrBracketExpected
  | commaOrBraceExpected
  | trailingComma
  | trailingCharacters
  | keyExpected
  | invalidNumber
  | numberOutOfRange
  | invalidEscape
  | controlCharacter
  | loneSurrogate
  | unfinishedSurrogatePair
  | invalidUnicode
  | nestedTooDeep
  deriving DecidableEq

namespace TextFault

def message : TextFault → String
  | endInValue => "EOF while parsing a value"
  | endInList => "EOF while parsing a list"
  | endInObject => "EOF while parsing an object"
  | endInString => "EOF while parsing a string"
  | valueExpected => "expected value"
  | wordExpected => "expected ident"
  | colonExpected => "expected `:`"
  | commaOrBracketExpected => "expected `,` or `]`"
  | commaOrBraceExpected => "expected `,` or `\x7d`"
  | trailingComma => "trailing comma"
  | trailingCharacters => "trailing characters"
  | keyExpected => "key must be a string"
  | invalidNumber => "invalid number"
  | numberOutOfRange => "number out of range"
  | invalidEscape => "invalid escape"
  | controlCharacter => "control character (\\u0000-\\u001F) found while parsing a string"
  | loneSurrogate => "lone leading surrogate in hex escape"
  | unfinishedSurrogatePair => "unexpected end of hex escape"
  | invalidUnicode => "invalid unicode code point"
  | nestedTooDeep => "recursion limit exceeded"

end TextFault

/-- a fault of a text or of a value in it -/
inductive Fault where
  | text (fault : TextFault)
  /-- a value of another type than the wanted one -/
  | wrongType (got : Head) (wanted : String)
  /-- a value of the wanted type that it does not hold -/
  | wrongValue (got : Head) (wanted : String)
  | missingField (name : String)
  | duplicateField (name : String)
  /-- an array that ends before a mandatory field -/
  | tooShort (length : Nat) (wanted : String)
  /-- an array with items after the last field -/
  | tooLong (length : Nat)
  | unknownVariant (name : String) (known : List String)
  deriving DecidableEq

namespace Fault

/-- names in back quotes, with `or` before the second of two and commas between more -/
def alternatives : List String → String
  | [] => ""
  | [a] => s!"`{a}`"
  | [a, b] => s!"`{a}` or `{b}`"
  | names => "one of " ++ ", ".intercalate (names.map fun n => s!"`{n}`")

def message : Fault → String
  | text f => f.message
  | wrongType got wanted => s!"invalid type: {got.describe}, expected {wanted}"
  | wrongValue got wanted => s!"invalid value: {got.describe}, expected {wanted}"
  | missingField name => s!"missing field `{name}`"
  | duplicateField name => s!"duplicate field `{name}`"
  | tooShort length wanted => s!"invalid length {length}, expected {wanted}"
  | tooLong length => s!"invalid length {length}, expected fewer elements in array"
  | unknownVariant name known => s!"unknown variant `{name}`, expected {alternatives known}"

end Fault

end PacketForwarder.Json
