/-
JSON values. An integer is a number written without point and exponent that a signed or an unsigned
64-bit word holds; every other number is a double. The members of an object are kept in ascending order
of their keys, each key once: `insertMember` is how a reader adds one, and a repeated key keeps its last
value.

`Head` is what is known of a value once its beginning is read: a scalar, or the kind of its bracket.
Messages about a wrong type name the head (`Head.describe`).
-/
import PacketForwarder.Number.Shortest
import PacketForwarder.Text.Quoted

namespace PacketForwarder

/-- a JSON value -/
inductive Json where
  | null
  | bool (b : Bool)
  | int (n : Int)
  | float (x : BinaryNumber .double)
  | str (s : String)
  | arr (items : List Json)
  | obj (members : List (String × Json))
  deriving Inhabited

/-- the beginning of a value -/
inductive Head where
  | null
  | bool (b : Bool)
  | int (n : Int)
  | float (x : BinaryNumber .double)
  | str (s : String)
  | sequence
  | map
  deriving DecidableEq

/-- Floats in JSON text: no exponent from `1e-5` up to below `1e16`, a sign on every exponent, and of two
equally near digits the even one. -/
def jsonFloatStyle : FloatStyle := ⟨-5, 16, "+", .toEven⟩

namespace Head

/-- what a message calls the value it found -/
def describe : Head → String
  | null => "null"
  | bool b => s!"boolean `{b}`"
  | int n => s!"integer `{n}`"
  | float x => s!"floating point `" ++ jsonFloatStyle.number x ++ "`"
  | str s => "string " ++ quoted s
  | sequence => "sequence"
  | map => "map"

end Head

namespace Json

def head : Json → Head
  | null => .null
  | bool b => .bool b
  | int n => .int n
  | float x => .float x
  | str s => .str s
  | arr _ => .sequence
  | obj _ => .map

/-- add a member in the order of the keys; a key that is there already gets the new value -/
def insertMember (key : String) (value : Json) : List (String × Json) → List (String × Json)
  | [] => [(key, value)]
  | (k, v) :: rest =>
    if key < k then (key, value) :: (k, v) :: rest
    else if key = k then (key, value) :: rest
    else (k, v) :: insertMember key value rest

/-- an object from members in any order -/
def ofMembers (members : List (String × Json)) : Json :=
  .obj (members.foldl (fun acc m => insertMember m.1 m.2 acc) [])

/-- the value of a key, in an object -/
def get? (key : String) : Json → Option Json
  | obj members => members.lookup key
  | _ => none

/-- a double as a JSON value; one that is not finite has none and becomes null -/
def ofDouble : Double → Json
  | .finite x => .float x
  | _ => .null

/-- a double, or the double nearest to an integer -/
def toDouble? : Json → Option Double
  | int n => some (.ofInt .double n)
  | float x => some (.finite x)
  | _ => none

end Json

end PacketForwarder
