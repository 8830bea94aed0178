/-
Records with a fixed set of fields, read from a JSON object or from an array with the fields in their
order. A `Schema` lists the fields; a field has a kind, other spellings of its name, and a default unless
it is mandatory. Fields that the schema does not know are ignored, and a field may be given once.

There are two ways in. `Schema.ofJson` takes a value and visits its members in the order of the value,
which is that of the keys. `Schema.ofText` takes text and visits the members as they stand there, so a
fault of the text shows only when the reader comes to it. Both judge a scalar by its head, in
`Scalar.judge`, and both end with `Schema.complete`.
-/
import PacketForwarder.Json.Skip

namespace PacketForwarder.Json

/-! ## Kinds of fields -/

/-- kinds of value whose head is all of it -/
inductive Scalar where
  | bool
  /-- a natural number below `2 ^ bits`, as a word -/
  | natural (bits : Nat)
  | real
  | text
  deriving DecidableEq

namespace Scalar

abbrev Carrier : Scalar → Type
  | bool => Bool
  | natural bits => BitVec bits
  | real => Double
  | text => String

/-- what a message calls the wanted value -/
def wanted : Scalar → String
  | bool => "a boolean"
  | natural bits => s!"u{bits}"
  | real => "f64"
  | text => "a string"

/-- the value with this head, if it is of the kind; integers are reals too -/
def judge : (kind : Scalar) → Head → Except Fault kind.Carrier
  | bool, .bool b => .ok b
  | natural bits, .int n =>
    if 0 ≤ n ∧ n < twoPow bits then .ok (.ofInt bits n)
    else .error (.wrongValue (.int n) (wanted (natural bits)))
  | real, .int n => .ok (.ofInt .double n)
  | real, .float x => .ok (.finite x)
  | text, .str s => .ok s
  | kind, h => .error (.wrongType h kind.wanted)

end Scalar

/-- kinds of fields -/
inductive Kind where
  | scalar (kind : Scalar)
  /-- a scalar, or null for none -/
  | optional (kind : Scalar)
  /-- any value -/
  | any
  /-- one of these names, alone or as the only key of an object with the value null -/
  | choice (names : List String)
  deriving DecidableEq

namespace Kind

abbrev Carrier : Kind → Type
  | scalar kind => kind.Carrier
  | optional kind => Option kind.Carrier
  | any => Json
  | choice _ => String

/-- a name, if it is one of those known -/
def chooseName (names : List String) (name : String) : Except Fault String :=
  if name ∈ names then .ok name else .error (.unknownVariant name names)

/-- null or nothing, where the head of another value has to be -/
def judgeOptional (kind : Scalar) (h : Head) : Except Fault (Option kind.Carrier) :=
  if h = .null then .ok none else some <$> kind.judge h

/-- the null that is the value of a name used as a key -/
def judgeUnit (h : Head) : Except Fault Unit :=
  if h = .null then .ok () else .error (.wrongType h "unit")

/-- the field that a value holds -/
def ofJson : (kind : Kind) → Json → Except Fault kind.Carrier
  | scalar kind, v => kind.judge v.head
  | optional kind, v => judgeOptional kind v.head
  | any, v => .ok v
  | choice names, .str s => chooseName names s
  | choice names, .obj [(key, v)] => do
    let name ← chooseName names key
    judgeUnit v.head
    return name
  | choice _, .obj _ => .error (.wrongValue .map "map with a single key")
  | choice _, v => .error (.wrongType v.head "string or map")

/-- the key that is a name, with its quotes -/
def readChoiceKey (names : List String) : Reader String := do
  match ← Reader.peek with
  | none => Reader.fail .endInObject
  | some '"' => do
    Reader.advance
    chooseName names (← Reader.string)
  | some '\x7d' => Reader.fail .valueExpected
  | some _ => Reader.fail .keyExpected

/-- the object form of a name, after its brace and with the closing one -/
def readChoiceObject (names : List String) : Reader String := do
  let name ← readChoiceKey names
  Reader.colon
  judgeUnit (← Reader.head)
  match ← Reader.peek with
  | some '\x7d' => do Reader.advance; return name
  | some _ => Reader.fail .valueExpected
  | none => Reader.fail .endInObject

/-- the field that text holds, with at most `depth` containers within each other -/
def read (fuel depth : Nat) : (kind : Kind) → Reader kind.Carrier
  | scalar kind => do kind.judge (← Reader.head)
  | optional kind => do judgeOptional kind (← Reader.head)
  | any => Reader.value fuel depth
  | choice names => do
    match ← Reader.peek with
    | none => Reader.fail .endInValue
    | some '"' => do
      Reader.advance
      chooseName names (← Reader.string)
    | some '\x7b' => do
      if depth = 0 then Reader.fail .nestedTooDeep
      Reader.advance
      readChoiceObject names
    | some _ => Reader.fail .valueExpected

end Kind

/-! ## Schemas -/

/-- the fields of a record, in their order -/
structure Schema where
  /-- what a message calls the record -/
  title : String
  Key : Type
  decEq : DecidableEq Key
  keys : List Key
  mem_keys : ∀ k, k ∈ keys
  name : Key → String
  /-- other spellings of the name -/
  aliases : Key → List String
  kind : Key → Kind
  /-- what stands for a field that is not given; a field without a default is mandatory -/
  default : (k : Key) → Option (kind k).Carrier

namespace Schema

variable (S : Schema)

instance : DecidableEq S.Key := S.decEq

/-- a record: a value for every field -/
abbrev Record := (k : S.Key) → (S.kind k).Carrier

/-- the fields given so far -/
abbrev Draft := (k : S.Key) → Option (S.kind k).Carrier

variable {S}

/-- no field given yet -/
def blank : S.Draft := fun _ => none

/-- one more field -/
def Draft.set (d : S.Draft) (k : S.Key) (v : (S.kind k).Carrier) : S.Draft :=
  fun k' => if h : k' = k then some (h ▸ v) else d k'

/-- the value of a field, given or by default -/
def Draft.value? (d : S.Draft) (k : S.Key) : Option (S.kind k).Carrier := d k <|> S.default k

variable (S)

/-- the field with a name -/
def key? (name : String) : Option S.Key :=
  S.keys.find? fun k => S.name k = name || (S.aliases k).contains name

/-- what a message calls an array of the fields -/
def arrayTitle : String := s!"{S.title} with {S.keys.length} elements"

/-- The record of a draft. The first mandatory field that is not given is a fault. -/
def complete (d : S.Draft) : Except Fault S.Record :=
  match h : S.keys.find? fun k => (d.value? k).isNone with
  | some k => .error (.missingField (S.name k))
  | none => .ok fun k => (d.value? k).get (by
      have := List.find?_eq_none.1 h k (S.mem_keys k)
      simpa [Option.isSome_iff_ne_none] using this)

/-! ## From a value -/

/-- visit one member of an object -/
def visit (d : S.Draft) (member : String × Json) : Except Fault S.Draft :=
  match S.key? member.1 with
  | none => .ok d
  | some k =>
    if (d k).isSome then .error (.duplicateField (S.name k))
    else d.set k <$> (S.kind k).ofJson member.2

/-- Fields in their order from the items of an array of a given length. Where the items end, the fields
that are left need a default. -/
def visitItems (length place : Nat) (d : S.Draft) : List S.Key → List Json → Except Fault S.Draft
  | [], [] => .ok d
  | [], _ :: _ => .error (.tooLong length)
  | k :: ks, [] =>
    if (S.default k).isSome then visitItems length (place + 1) d ks []
    else .error (.tooShort place S.arrayTitle)
  | k :: ks, v :: vs => do
    let field ← (S.kind k).ofJson v
    visitItems length (place + 1) (d.set k field) ks vs

/-- the record that a value holds -/
def ofJson : Json → Except Fault S.Record
  | .obj members => do S.complete (← members.foldlM S.visit blank)
  | .arr items => do S.complete (← S.visitItems items.length 0 blank S.keys items)
  | v => .error (.wrongType v.head S.title)

/-! ## From text -/

/-- containers that a field may have within each other, since it stands in one itself -/
def fieldDepth : Nat := nestingLimit - 1

/-- read one member of an object, from the colon on -/
def readMember (fuel : Nat) (d : S.Draft) (name : String) : Reader S.Draft :=
  match S.key? name with
  | none => do
    Reader.colon
    Reader.skipValue fuel
    return d
  | some k => do
    if (d k).isSome then throw (.duplicateField (S.name k))
    Reader.colon
    return d.set k (← (S.kind k).read fuel fieldDepth)

/-- is there another item in the array? -/
def hasItem (first : Bool) : Reader Bool := do
  match ← Reader.peek with
  | none => Reader.fail .endInList
  | some ']' => return false
  | some ',' =>
    if first then return true
    else
      Reader.advance
      match ← Reader.peek with
      | none => Reader.fail .endInValue
      | some ']' => Reader.fail .trailingComma
      | some _ => return true
  | some _ => if first then return true else Reader.fail .commaOrBracketExpected

/-- fields in their order from the items of an array; the closing bracket is left -/
def readItems (fuel place : Nat) (d : S.Draft) : List S.Key → Reader S.Draft
  | [] => return d
  | k :: ks => do
    if ← hasItem (place = 0) then
      let field ← (S.kind k).read fuel fieldDepth
      readItems fuel (place + 1) (d.set k field) ks
    else if (S.default k).isSome then readItems fuel (place + 1) d ks
    else throw (.tooShort place S.arrayTitle)

/-- the closing bracket of an array in which all fields have been read -/
def closeItems : Reader Unit := do
  match ← Reader.peek with
  | none => Reader.fail .endInList
  | some ']' => Reader.advance
  | some ',' => do
    Reader.advance
    match ← Reader.peek with
    | some ']' => Reader.fail .trailingComma
    | _ => Reader.fail .trailingCharacters
  | some _ => Reader.fail .trailingCharacters

/-- the record at the front of text -/
def read (fuel : Nat) : Reader S.Record := do
  match ← Reader.head with
  | .map => S.complete (← Reader.foldMembers fuel (S.readMember fuel) blank)
  | .sequence =>
    let r ← S.complete (← S.readItems fuel 0 blank S.keys)
    closeItems
    return r
  | h => throw (.wrongType h S.title)

/-- the record that a whole text holds -/
def ofText (text : Bytes) : Except Fault S.Record :=
  (do
    let r ← S.read text.length
    Reader.finish
    return r : Reader S.Record).run' text

end Schema

end PacketForwarder.Json
