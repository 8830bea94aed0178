/-
Passing over a JSON value. The brackets that are open stand on a stack, the innermost first, so the
nesting has no limit. Strings are looked at only for their end, controls and escapes; numbers only for
their form.
-/
import PacketForwarder.Json.Reader

namespace PacketForwarder.Json.Reader

/-- an open container -/
inductive Bracket where
  | square
  | curly
  deriving DecidableEq

/-- the fault where the text ends within a container -/
def Bracket.endFault : Bracket → TextFault
  | square => .endInList
  | curly => .endInObject

/-- the fault where neither a comma nor the closing bracket follows a value -/
def Bracket.nextFault : Bracket → TextFault
  | square => .commaOrBracketExpected
  | curly => .commaOrBraceExpected

def Bracket.close : Bracket → Char
  | square => ']'
  | curly => '\x7d'

/-- a string after its opening quote, unchecked -/
def skipString : Reader Unit := do
  let (_, rest) ← scanString false .plain [] (← get)
  set rest

/-- the digits of a number, at least one -/
def skipDigits : Reader Unit := do
  if (← digits).isEmpty then fail .invalidNumber

/-- a number after its sign; a text that ends too early makes it invalid -/
def skipNumber : Reader Unit := do
  let ds ← digits
  if ds.isEmpty || (ds.head? = some '0' && 1 < ds.length) then fail .invalidNumber
  match ← get with
  | b :: rest =>
    if b = '.'.toUInt8 then
      set rest
      skipDigits
  | [] => pure ()
  match ← get with
  | b :: rest =>
    if b = 'e'.toUInt8 ∨ b = 'E'.toUInt8 then
      match rest with
      | s :: more => set (if s = '+'.toUInt8 ∨ s = '-'.toUInt8 then more else rest)
      | [] => set rest
      skipDigits
  | [] => pure ()

/-- the key of a member and its colon -/
def skipKey : Reader Unit := do
  match ← peek with
  | some '"' => do advance; skipString; colon
  | some _ => fail .keyExpected
  | none => fail .endInObject

/-- a scalar, or the opening bracket of a container -/
def skipHead : Reader (Option Bracket) := do
  match ← peek with
  | none => fail .endInValue
  | some 'n' => do advance; word "ull".toUTF8.toList; return none
  | some 't' => do advance; word "rue".toUTF8.toList; return none
  | some 'f' => do advance; word "alse".toUTF8.toList; return none
  | some '"' => do advance; skipString; return none
  | some '[' => do advance; return some .square
  | some '\x7b' => do advance; return some .curly
  | some '-' => do advance; skipNumber; return none
  | some c => if c.isDigit then do skipNumber; return none else fail .valueExpected

/-- what the scan expects next -/
inductive SkipPlace where
  | beforeValue
  | afterValue

/-- One step: from the stack and the place to the next ones, or to the end of the value. -/
def skipStep : List Bracket → SkipPlace → Reader (Option (List Bracket × SkipPlace))
  | stack, .beforeValue => do
    match ← skipHead with
    | none => return some (stack, .afterValue)
    | some bracket =>
      match ← peek with
      | none => fail bracket.endFault
      | some c =>
        if c = bracket.close then
          advance
          return some (stack, .afterValue)
        else
          if bracket = .curly then skipKey
          return some (bracket :: stack, .beforeValue)
  | [], .afterValue => return none
  | bracket :: stack, .afterValue => do
    match ← peek with
    | none => fail bracket.endFault
    | some c =>
      if c = ',' then
        advance
        if bracket = .curly then skipKey
        return some (bracket :: stack, .beforeValue)
      else if c = bracket.close then
        advance
        return some (stack, .afterValue)
      else fail bracket.nextFault

/-- steps until the value ends -/
def skipFrom : Nat → List Bracket → SkipPlace → Bytes → Except Fault Bytes
  | 0, _, _, _ => .error (.text .endInValue)
  | fuel + 1, stack, place, bytes =>
    match (skipStep stack place).run bytes with
    | .error f => .error f
    | .ok (none, rest) => .ok rest
    | .ok (some (stack, place), rest) => skipFrom fuel stack place rest

/-- Pass over one value. Every value and every bracket takes a byte and at most two steps. -/
def skipValue (fuel : Nat) : Reader Unit := do
  set (← skipFrom (2 * fuel + 2) [] .beforeValue (← get))

end PacketForwarder.Json.Reader
