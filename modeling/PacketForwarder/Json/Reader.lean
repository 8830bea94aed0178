/-
Reading JSON text. A reader takes the bytes that are left and gives a result with the rest, or the first
fault of the text. `Reader.value` builds a value and allows a limited nesting, and `parse` reads a whole
text with it.

Loops count down from a number that is at least the count of bytes left. Each round takes a byte, so
they never run out.
-/
import PacketForwarder.Json.Fault
import PacketForwarder.Number.Decimal

namespace PacketForwarder.Json

abbrev Bytes := List UInt8

abbrev Reader := StateT Bytes (Except Fault)

/-- containers within each other that a text may have, the outermost included -/
def nestingLimit : Nat := 127

namespace Reader

def fail {α : Type} (f : TextFault) : Reader α := throw (.text f)

def isBlank (b : UInt8) : Bool := b = 0x20 || b = 0x0a || b = 0x0d || b = 0x09

def isDigit (b : UInt8) : Bool := 0x30 ≤ b && b ≤ 0x39

/-- drop blanks, then show the next character without taking it -/
def peek : Reader (Option Char) := do
  modify (·.dropWhile isBlank)
  return (← get).head?.map fun b => Char.ofNat b.toNat

/-- take one byte -/
def advance : Reader Unit := modify (·.drop 1)

/-- the rest of `null`, `true` or `false` -/
def word : List UInt8 → Reader Unit
  | [] => pure ()
  | w :: ws => do
    match ← get with
    | [] => fail .endInValue
    | b :: rest =>
      if b = w then
        set rest
        word ws
      else fail .wordExpected

/-! ## Numbers -/

/-- the digits at the front, as many as there are -/
def digits : Reader (List Char) := do
  let (ds, rest) := (← get).span isDigit
  set rest
  return ds.map fun b => Char.ofNat b.toNat

/-- the digits before the point: at least one, and no zero in front of others -/
def wholeDigits : Reader (List Char) := do
  match ← get with
  | [] => fail .endInValue
  | b :: _ =>
    if !isDigit b then fail .invalidNumber
    else
      let ds ← digits
      if ds.head? = some '0' && 1 < ds.length then fail .invalidNumber else return ds

/-- the digits after the point, if there is one -/
def fractionDigits : Reader (Option (List Char)) := do
  match ← get with
  | b :: rest =>
    if b = '.'.toUInt8 then
      set rest
      match ← digits with
      | [] => if (← get).isEmpty then fail .endInValue else fail .invalidNumber
      | ds => return some ds
    else return none
  | [] => return none

/-- the exponent, if there is one -/
def exponentPart : Reader (Option Int) := do
  match ← get with
  | b :: rest =>
    if b = 'e'.toUInt8 ∨ b = 'E'.toUInt8 then
      let (negative, rest) := match rest with
        | s :: more =>
          if s = '-'.toUInt8 then (true, more) else if s = '+'.toUInt8 then (false, more) else (false, rest)
        | [] => (false, rest)
      set rest
      match ← digits with
      | [] => if (← get).isEmpty then fail .endInValue else fail .invalidNumber
      | ds =>
        let n := Decimal.ofDigits ds
        return some (if negative then -(n : Int) else n)
    else return none
  | [] => return none

/-- The value of a number without point and exponent: an integer, if a signed or an unsigned 64-bit word
holds it; `-0` is a float. -/
def integer? (negative : Bool) (n : Nat) : Option Int :=
  if negative then if n = 0 ∨ twoPow 63 < n then none else some (-n)
  else if n < twoPow 64 then some n else none

/-- A number after its sign. A float is taken to be the double nearest to its literal. This is an assumption
on the reader of JSON: a fast one may be a unit in the last place off, for literals of many digits or with a
large exponent. -/
def number (negative : Bool) : Reader Head := do
  let whole ← wholeDigits
  let fraction ← fractionDigits
  let exponent ← exponentPart
  let asFloat : Reader Head :=
    let ds := fraction.getD []
    match Decimal.toBinary .double ⟨negative, Decimal.ofDigits (whole ++ ds), exponent.getD 0 - ds.length⟩ with
    | .finite x => return .float x
    | _ => fail .numberOutOfRange
  if fraction.isSome || exponent.isSome then asFloat
  else match integer? negative (Decimal.ofDigits whole) with
    | some n => return .int n
    | none => asFloat

/-! ## Strings -/

/-- where in a string a scan stands -/
inductive StringPlace where
  | plain
  | escape
  /-- after `\u` and some of its four bytes; a leading surrogate may wait for its partner -/
  | hex (lead : Option Nat) (read : List UInt8)
  /-- after a leading surrogate -/
  | afterLead (lead : Nat)
  /-- after a leading surrogate and a backslash -/
  | afterLeadEscape (lead : Nat)

/-- the value of four hexadecimal digits -/
def hexValue? (bs : List UInt8) : Option Nat :=
  bs.foldlM (fun acc b =>
    let c := Char.ofNat b.toNat
    if isDigit b then some (acc * 16 + (b.toNat - 48))
    else if 'a' ≤ c ∧ c ≤ 'f' then some (acc * 16 + (b.toNat - 87))
    else if 'A' ≤ c ∧ c ≤ 'F' then some (acc * 16 + (b.toNat - 55))
    else none) 0

/-- what a single character after a backslash stands for -/
def simpleEscape? (c : Char) : Option UInt8 :=
  match c with
  | '"' => some 0x22
  | '\\' => some 0x5c
  | '/' => some 0x2f
  | 'b' => some 0x08
  | 'f' => some 0x0c
  | 'n' => some 0x0a
  | 'r' => some 0x0d
  | 't' => some 0x09
  | _ => none

/-- The step after four hexadecimal digits: what they add, and where the scan then stands. Only a checked
scan cares about surrogates, which have to come in pairs; one that is not checked only passes over. -/
def afterHex (checked : Bool) (lead : Option Nat) (unit : Nat) : Except Fault (List UInt8 × StringPlace) :=
  if !checked then .ok ([], .plain)
  else match lead with
    | none =>
      if 0xdc00 ≤ unit ∧ unit ≤ 0xdfff then .error (.text .loneSurrogate)
      else if 0xd800 ≤ unit ∧ unit ≤ 0xdbff then .ok ([], .afterLead unit)
      else .ok (String.utf8EncodeChar (Char.ofNat unit), .plain)
    | some lead =>
      if unit < 0xdc00 ∨ 0xdfff < unit then .error (.text .loneSurrogate)
      else
        .ok (String.utf8EncodeChar (Char.ofNat ((lead - 0xd800) * 1024 + (unit - 0xdc00) + 0x10000)), .plain)

/-- Scan a string up to its closing quote. `found` holds the bytes of its text so far, the last one first. -/
def scanString (checked : Bool) (place : StringPlace) (found : List UInt8) :
    Bytes → Except Fault (List UInt8 × Bytes)
  | [] => .error (.text .endInString)
  | b :: rest =>
    let c := Char.ofNat b.toNat
    match place with
    | .plain =>
      if c = '"' then .ok (found.reverse, rest)
      else if c = '\\' then scanString checked .escape found rest
      else if b < 0x20 then .error (.text .controlCharacter)
      else scanString checked .plain (b :: found) rest
    | .escape =>
      if c = 'u' then scanString checked (.hex none []) found rest
      else match simpleEscape? c with
        | some e => scanString checked .plain (e :: found) rest
        | none => .error (.text .invalidEscape)
    | .hex lead read =>
      if read.length < 3 then scanString checked (.hex lead (read ++ [b])) found rest
      else match hexValue? (read ++ [b]) with
        | none => .error (.text .invalidEscape)
        | some unit =>
          match afterHex checked lead unit with
          | .error f => .error f
          | .ok (more, place) => scanString checked place (more.reverse ++ found) rest
    | .afterLead lead =>
      if c = '\\' then scanString checked (.afterLeadEscape lead) found rest
      else .error (.text .unfinishedSurrogatePair)
    | .afterLeadEscape lead =>
      if c = 'u' then scanString checked (.hex (some lead) []) found rest
      else .error (.text .unfinishedSurrogatePair)

/-- a string after its opening quote -/
def string : Reader String := do
  let (text, rest) ← scanString true .plain [] (← get)
  set rest
  match String.fromUTF8? ⟨text.toArray⟩ with
  | some s => return s
  | none => fail .invalidUnicode

/-! ## Values -/

/-- the head of a value: a scalar is read whole, of a container only its bracket -/
def head : Reader Head := do
  match ← peek with
  | none => fail .endInValue
  | some 'n' => do advance; word "ull".toUTF8.toList; return .null
  | some 't' => do advance; word "rue".toUTF8.toList; return .bool true
  | some 'f' => do advance; word "alse".toUTF8.toList; return .bool false
  | some '"' => do advance; return .str (← string)
  | some '[' => do advance; return .sequence
  | some '\x7b' => do advance; return .map
  | some '-' => do advance; number true
  | some c => if c.isDigit then number false else fail .valueExpected

/-- the rounds of `foldItems`, each from the beginning of an item -/
def itemRounds {σ : Type} (item : σ → Reader σ) : Nat → σ → Reader σ
  | 0, _ => fail .endInList
  | fuel + 1, s => do
    let s ← item s
    match ← peek with
    | some ',' =>
      advance
      match ← peek with
      | some ']' => fail .trailingComma
      | _ => itemRounds item fuel s
    | some ']' => do advance; return s
    | some _ => fail .commaOrBracketExpected
    | none => fail .endInList

/-- the items of an array, after its bracket and with the closing one -/
def foldItems {σ : Type} (fuel : Nat) (item : σ → Reader σ) (s : σ) : Reader σ := do
  match ← peek with
  | some ']' => do advance; return s
  | none => fail .endInList
  | some _ => itemRounds item fuel s

/-- the colon after a key -/
def colon : Reader Unit := do
  match ← peek with
  | some ':' => advance
  | some _ => fail .colonExpected
  | none => fail .endInObject

/-- the rounds of `foldMembers`, each from the quote of a key -/
def memberRounds {σ : Type} (member : σ → String → Reader σ) : Nat → σ → Reader σ
  | 0, _ => fail .endInObject
  | fuel + 1, s => do
    advance
    let s ← member s (← string)
    match ← peek with
    | some ',' =>
      advance
      match ← peek with
      | some '"' => memberRounds member fuel s
      | some '\x7d' => fail .trailingComma
      | some _ => fail .keyExpected
      | none => fail .endInValue
    | some '\x7d' => do advance; return s
    | some _ => fail .commaOrBraceExpected
    | none => fail .endInObject

/-- The members of an object, after its brace and with the closing one. What is done with a member begins
at the colon after its key. -/
def foldMembers {σ : Type} (fuel : Nat) (member : σ → String → Reader σ) (s : σ) : Reader σ := do
  match ← peek with
  | some '\x7d' => do advance; return s
  | some '"' => memberRounds member fuel s
  | some _ => fail .keyExpected
  | none => fail .endInObject

/-- the value with a head; `items` and `members` read what is in a container -/
def valueWith (items : Reader (List Json)) (members : Reader (List (String × Json))) : Head → Reader Json
  | .null => return .null
  | .bool b => return .bool b
  | .int n => return .int n
  | .float x => return .float x
  | .str s => return .str s
  | .sequence => return .arr (← items)
  | .map => return .obj (← members)

/-- a value with at most `depth` containers within each other -/
def value (fuel : Nat) : Nat → Reader Json
  | 0 => do valueWith (fail .nestedTooDeep) (fail .nestedTooDeep) (← head)
  | depth + 1 => do
    let items := List.reverse <$> foldItems fuel (fun acc => do return (← value fuel depth) :: acc) []
    let members := foldMembers fuel (fun acc key => do
      colon
      return insertMember key (← value fuel depth) acc) []
    valueWith items members (← head)

/-- the end of the text, after blanks -/
def finish : Reader Unit := do
  if (← peek).isSome then fail .trailingCharacters

end Reader

/-- the value that a whole text spells -/
def parse (text : Bytes) : Except Fault Json :=
  (do
    let v ← Reader.value text.length nestingLimit
    Reader.finish
    return v : Reader Json).run' text

end PacketForwarder.Json
