/-
The two modulations of a gateway, and their names on the wire.
-/

namespace PacketForwarder

/-- a modulation -/
inductive Modulation where
  | lora
  | fsk
  deriving DecidableEq

namespace Modulation

def all : List Modulation := [lora, fsk]

/-- the name in a packet -/
def wireName : Modulation → String
  | lora => "LORA"
  | fsk => "FSK"

/-- the name in a description -/
def name : Modulation → String
  | lora => "LoRa"
  | fsk => "Fsk"

def ofWireName? (s : String) : Option Modulation := all.find? (·.wireName = s)

/-- what is said of a name, a bandwidth or a coding rate that is none of those known -/
def unsupported : String := "unsupported modulation"

end Modulation

end PacketForwarder
