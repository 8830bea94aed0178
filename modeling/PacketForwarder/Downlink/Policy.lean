/-
How strictly the scheduling fields of a request are taken. The configuration is a record with this one
field, which may be left out.
-/
import PacketForwarder.Json.Printer
import PacketForwarder.Json.Record

namespace PacketForwarder

open Json

/-- what is done with more or fewer than one scheduling field -/
inductive SchedulePolicy where
  /-- the field that goes before the others counts -/
  | precedence
  /-- the request is refused -/
  | exclusive
  deriving DecidableEq

namespace SchedulePolicy

def name : SchedulePolicy → String
  | precedence => "precedence"
  | exclusive => "exclusive"

def all : List SchedulePolicy := [precedence, exclusive]

/-- the policy with a name; the names that a configuration may hold are those of `all` -/
def ofName (s : String) : SchedulePolicy := (all.find? (·.name = s)).getD precedence

end SchedulePolicy

namespace DecodeConfig

/-- the configuration as a record with one field -/
def schema : Schema where
  title := "struct DecodeConfig"
  Key := Unit
  decEq := inferInstance
  keys := [()]
  mem_keys := by simp
  name _ := "schedule"
  aliases _ := []
  kind _ := .choice (SchedulePolicy.all.map (·.name))
  default _ := some SchedulePolicy.precedence.name

/-- the policy that a configuration asks for -/
def policy (r : schema.Record) : SchedulePolicy := .ofName (r ())

def ofJson (v : Json) : Except Fault SchedulePolicy := policy <$> schema.ofJson v

def ofText (text : Bytes) : Except Fault SchedulePolicy := policy <$> schema.ofText text

/-- the configuration as it is written -/
def toJson (p : SchedulePolicy) : Json := .obj [("schedule", .str p.name)]

end DecodeConfig

end PacketForwarder
