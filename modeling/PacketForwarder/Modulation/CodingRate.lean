/-
LoRa coding rates: of five to eight bits sent, four carry data. Some rates have shorter spellings.
-/

namespace PacketForwarder

/-- a LoRa coding rate, named by its fraction -/
inductive CodingRate where
  | fourFifths
  | fourSixths
  | fourSevenths
  | fourEighths
  deriving DecidableEq

namespace CodingRate

def all : List CodingRate := [fourFifths, fourSixths, fourSevenths, fourEighths]

/-- bits sent for four bits of data -/
def code : CodingRate → Nat
  | fourFifths => 5
  | fourSixths => 6
  | fourSevenths => 7
  | fourEighths => 8

/-- the one spelling that is written -/
def fraction (c : CodingRate) : String := s!"4/{c.code}"

/-- the name in a description -/
def name (c : CodingRate) : String := s!"Cr4_{c.code}"

/-- the spellings that are read -/
def spellings : CodingRate → List String
  | fourFifths => ["4/5"]
  | fourSixths => ["4/6", "2/3"]
  | fourSevenths => ["4/7"]
  | fourEighths => ["4/8", "2/4", "1/2"]

def ofCode? (n : Nat) : Option CodingRate := all.find? (·.code = n)

def ofSpelling? (s : String) : Option CodingRate := all.find? (·.spellings.contains s)

def unsupported : String := "unsupported coding rate"

end CodingRate

end PacketForwarder
