/-
Transmit requests as they stand on the wire. A request is a record of fourteen loosely typed fields;
what its datarate has to be depends on its modulation, so it is held as text, as a number or as any other
value until that is known.
-/
import PacketForwarder.Json.Record

namespace PacketForwarder

open Json

/-- the datarate of a request, before its modulation is known -/
inductive WireDatarate where
  | text (s : String)
  /-- any number; integers become doubles -/
  | number (x : Double)
  | other (v : Json)

namespace WireDatarate

def ofJson : Json → WireDatarate
  | .str s => text s
  | .int n => number (.ofInt .double n)
  | .float x => number (.finite x)
  | v => other v

/-- the value shown for a datarate -/
def toJson : WireDatarate → Json
  | text s => .str s
  | number x => .ofDouble x
  | other v => v

end WireDatarate

/-- a transmit request -/
structure Request where
  /-- send at once -/
  imme : Bool
  /-- microseconds of the counter to send at -/
  tmst : Option UInt32
  /-- milliseconds of GPS time to send at -/
  tmms : Option UInt64
  /-- send no checksum -/
  ncrc : Bool
  /-- megahertz -/
  freq : Double
  rfch : UInt8
  /-- dBm -/
  powe : UInt8
  /-- name of the modulation -/
  modu : String
  datr : WireDatarate
  /-- coding rate, for LoRa -/
  codr : String
  /-- invert the polarity, for LoRa -/
  ipol : Bool
  /-- length of the preamble -/
  prea : UInt16
  /-- deviation in hertz, for FSK -/
  fdev : Double
  /-- payload in base64 -/
  data : String

namespace Request

/-- the fields of a request -/
inductive Key where
  | imme | tmst | tmms | ncrc | freq | rfch | powe | modu | datr | codr | ipol | prea | fdev | data
  deriving DecidableEq

namespace Key

def all : List Key :=
  [imme, tmst, tmms, ncrc, freq, rfch, powe, modu, datr, codr, ipol, prea, fdev, data]

def name : Key → String
  | imme => "imme"
  | tmst => "tmst"
  | tmms => "tmms"
  | ncrc => "ncrc"
  | freq => "freq"
  | rfch => "rfch"
  | powe => "powe"
  | modu => "modu"
  | datr => "datr"
  | codr => "codr"
  | ipol => "ipol"
  | prea => "prea"
  | fdev => "fdev"
  | data => "data"

@[reducible] def kind : Key → Kind
  | imme => .scalar .bool
  | tmst => .optional (.natural 32)
  | tmms => .optional (.natural 64)
  | ncrc => .scalar .bool
  | freq => .scalar .real
  | rfch => .scalar (.natural 8)
  | powe => .scalar (.natural 8)
  | modu => .scalar .text
  | datr => .any
  | codr => .scalar .text
  | ipol => .scalar .bool
  | prea => .scalar (.natural 16)
  | fdev => .scalar .real
  | data => .scalar .text

/-- what a field is when it is not given -/
def default : (k : Key) → Option k.kind.Carrier
  | imme => some false
  | tmst => some none
  | tmms => some none
  | ncrc => some false
  | freq => none
  | rfch => none
  | powe => some 0
  | modu => none
  | datr => some .null
  | codr => some ""
  | ipol => some false
  | prea => some 0
  | fdev => some (.zero .double)
  | data => none

end Key

def schema : Schema where
  title := "struct Txpk"
  Key := Key
  decEq := inferInstance
  keys := Key.all
  mem_keys k := by cases k <;> simp [Key.all]
  name := Key.name
  aliases _ := []
  kind := Key.kind
  default := Key.default

/-- the request that a record spells -/
def ofRecord (r : schema.Record) : Request where
  imme := r Key.imme
  tmst := (r Key.tmst : Option (BitVec 32)).map (⟨·⟩)
  tmms := (r Key.tmms : Option (BitVec 64)).map (⟨·⟩)
  ncrc := r Key.ncrc
  freq := r Key.freq
  rfch := ⟨r Key.rfch⟩
  powe := ⟨r Key.powe⟩
  modu := r Key.modu
  datr := .ofJson (r Key.datr)
  codr := r Key.codr
  ipol := r Key.ipol
  prea := ⟨r Key.prea⟩
  fdev := r Key.fdev
  data := r Key.data

def ofJson (v : Json) : Except Fault Request := ofRecord <$> schema.ofJson v

def ofText (text : Bytes) : Except Fault Request := ofRecord <$> schema.ofText text

/-- the fields that say when to send -/
inductive ScheduleField where
  | imme
  | tmst
  | tmms
  deriving DecidableEq

def ScheduleField.name : ScheduleField → String
  | imme => "imme"
  | tmst => "tmst"
  | tmms => "tmms"

/-- is a scheduling field set? -/
def isSet (r : Request) : ScheduleField → Bool
  | .imme => r.imme
  | .tmst => r.tmst.isSome
  | .tmms => r.tmms.isSome

/-- the scheduling fields that are set, in their order -/
def scheduleFields (r : Request) : List ScheduleField := [.imme, .tmst, .tmms].filter r.isSet

end Request

end PacketForwarder
