/-
Entries of a gateway's channel plan. An entry is read as a record; `ChannelEntry.validate` then makes a
channel of it. For FSK the field of the spreading factor holds the bitrate, and the bandwidth is not
looked at.
-/
import PacketForwarder.Json.Printer
import PacketForwarder.Json.Record
import PacketForwarder.Modulation.Bandwidth
import PacketForwarder.Modulation.Basic

namespace PacketForwarder

open Json

/-- an entry as it is written -/
structure ChannelEntry where
  /-- hertz -/
  freq : UInt32
  modulation : String
  /-- hertz -/
  bandwidth : UInt32
  /-- spreading factor, or bitrate -/
  spreadFactor : UInt32
  preambleLength : UInt16
  deriving DecidableEq

/-- a channel -/
inductive Channel where
  | lora (frequency : UInt32) (bandwidth : Bandwidth) (spreadingFactor : UInt8) (preambleLength : UInt16)
  | fsk (frequency : UInt32) (bitrate : UInt32) (preambleLength : UInt16)
  deriving DecidableEq

/-- why an entry is no channel -/
inductive ChannelError where
  | modulation (name : String)
  | bandwidth (hertz : Nat)
  | spreadingFactor (factor : Nat)
  | bitrate
  | frequency
  deriving DecidableEq

namespace ChannelError

def message : ChannelError → String
  | modulation name => "unknown modulation " ++ quoted name
  | bandwidth hertz => s!"unsupported LoRa bandwidth {hertz} Hz"
  | spreadingFactor factor => s!"spreading factor {factor} outside SF5..SF12"
  | bitrate => "FSK bitrate must be non-zero"
  | frequency => "frequency must be non-zero"

end ChannelError

namespace ChannelEntry

/-- the fields of an entry -/
inductive Key where
  | freq | modulation | bandwidth | spreadFactor | preambleLength
  deriving DecidableEq

namespace Key

def all : List Key := [freq, modulation, bandwidth, spreadFactor, preambleLength]

def name : Key → String
  | freq => "freq"
  | modulation => "modulation"
  | bandwidth => "bandwidth"
  | spreadFactor => "spread_factor"
  | preambleLength => "preamble_length"

@[reducible] def kind : Key → Kind
  | freq => .scalar (.natural 32)
  | modulation => .scalar .text
  | bandwidth => .scalar (.natural 32)
  | spreadFactor => .scalar (.natural 32)
  | preambleLength => .scalar (.natural 16)

/-- what a field is when it is not given -/
def default : (k : Key) → Option k.kind.Carrier
  | freq => none
  | modulation => none
  | bandwidth => some 0
  | spreadFactor => none
  | preambleLength => some 0

/-- the preamble length has a second spelling -/
def aliases : Key → List String
  | preambleLength => ["PreambleLength"]
  | _ => []

end Key

def schema : Schema where
  title := "struct ChannelConfig"
  Key := Key
  decEq := inferInstance
  keys := Key.all
  mem_keys k := by cases k <;> simp [Key.all]
  name := Key.name
  aliases := Key.aliases
  kind := Key.kind
  default := Key.default

/-- the entry that a record spells -/
def ofRecord (r : schema.Record) : ChannelEntry where
  freq := ⟨r Key.freq⟩
  modulation := r Key.modulation
  bandwidth := ⟨r Key.bandwidth⟩
  spreadFactor := ⟨r Key.spreadFactor⟩
  preambleLength := ⟨r Key.preambleLength⟩

def ofJson (v : Json) : Except Fault ChannelEntry := ofRecord <$> schema.ofJson v

def ofText (text : Bytes) : Except Fault ChannelEntry := ofRecord <$> schema.ofText text

/-- the entry as it is written, with the fields in their order -/
def toJson (c : ChannelEntry) : Json := .obj [
  (Key.freq.name, .int c.freq.toNat),
  (Key.modulation.name, .str c.modulation),
  (Key.bandwidth.name, .int c.bandwidth.toNat),
  (Key.spreadFactor.name, .int c.spreadFactor.toNat),
  (Key.preambleLength.name, .int c.preambleLength.toNat)]

/-- the least and the greatest spreading factor -/
def spreadingFactors : Nat × Nat := (5, 12)

/-- The channel of an entry. The frequency is checked first, then the modulation, then its settings. -/
def validate (c : ChannelEntry) : Except ChannelError Channel :=
  if c.freq = 0 then .error .frequency
  else match Modulation.ofWireName? c.modulation with
    | none => .error (.modulation c.modulation)
    | some .lora =>
      match Bandwidth.ofHertz? c.bandwidth.toNat with
      | none => .error (.bandwidth c.bandwidth.toNat)
      | some b =>
        let factor := c.spreadFactor.toNat
        if spreadingFactors.1 ≤ factor ∧ factor ≤ spreadingFactors.2 then
          .ok (.lora c.freq b (.ofNat factor) c.preambleLength)
        else .error (.spreadingFactor factor)
    | some .fsk =>
      if c.spreadFactor = 0 then .error .bitrate
      else .ok (.fsk c.freq c.spreadFactor c.preambleLength)

end ChannelEntry

end PacketForwarder
