/-
Reports of received packets, as JSON. `Uplink.report` lists the fields of a report in their order with
the text of each value, and `Uplink.encode` writes them; `Uplink.encodeJson` gives the report as a value
to put into a larger one. Numbers are rounded alike in both: the frequency to a hertz, the signal to
noise ratio to a tenth, the signal strength to a whole number.
-/
import PacketForwarder.Frequency
import PacketForwarder.Json.Value
import PacketForwarder.Log
import PacketForwarder.Modulation.Datarate
import PacketForwarder.Packet.Receive
import PacketForwarder.Text.Base64

namespace PacketForwarder.Uplink

/-- the text of a value in a report -/
inductive Cell where
  /-- stands as it is -/
  | bare (text : String)
  /-- stands in quotes; its characters need no escape -/
  | inQuotes (text : String)
  deriving DecidableEq

namespace Cell

def nat (n : Nat) : Cell := bare (toString n)

def text : Cell → String
  | bare t => t
  | inQuotes t => "\"" ++ t ++ "\""

end Cell

/-- the datarate of LoRa settings -/
def datarate (s : LoraReceive) : Datarate := ⟨s.spreadingFactor, s.bandwidth⟩

/-- decimals of a frequency in megahertz -/
def frequencyPlaces : Nat := 6

/-- decimals of a signal to noise ratio -/
def snrPlaces : Nat := 1

/-- decimals of a signal strength -/
def rssiPlaces : Nat := 0

/-- the fields that only some modulation has, or that look different for each -/
def modulationReport : ReceiveModulation → List (String × Cell)
  | .lora s => [
      ("datr", .inQuotes (datarate s).text),
      ("codr", .inQuotes s.codingRate.fraction),
      ("lsnr", .bare (s.snr.fixed snrPlaces))]
  | .fsk s => [("datr", .nat s.bitrate.toNat)]

/-- the fields of a report, in their order -/
def report (p : ReceivePacket) : List (String × Cell) :=
  [ ("tmst", .nat p.counter.toNat),
    ("time", .inQuotes p.receivedAt.toSecondsText),
    ("chan", .nat p.ifChain.toNat),
    ("rfch", .nat p.rfChain.toNat),
    ("freq", .bare ((Frequency.toMegahertz p.frequency).fixed frequencyPlaces)),
    ("stat", .bare (toString p.crc.code)),
    ("modu", .inQuotes p.modulation.kind.wireName)] ++
  modulationReport p.modulation ++
  [ ("rssi", .bare (p.rssi.fixed rssiPlaces)),
    ("size", .nat p.payload.length),
    ("data", .inQuotes (Base64.encode p.payload))]

/-- a field with its key in quotes -/
def fieldText (field : String × Cell) : String := "\"" ++ field.1 ++ "\":" ++ field.2.text

/-- fields as an object, without blanks -/
def write (fields : List (String × Cell)) : String :=
  "\x7b" ++ ",".intercalate (fields.map fieldText) ++ "\x7d"

/-- the report of a packet -/
def encode (p : ReceivePacket) : String := write (report p)

/-- what is logged of a report -/
def encodedLine (text : String) : LogLine := ⟨.trace, "Encoded rxpk: " ++ text⟩

/-- a double rounded to a count of places: the one nearest to its text; null where it is not finite -/
def rounded (places : Nat) (x : Double) : Json :=
  match Binary.ofText? .double (x.fixed places) with
  | some y => .ofDouble y
  | none => .null

/-- a number rounded to a whole one, where a signed 64-bit word holds it; null where none does -/
def roundedWhole {f : BinaryFormat} (x : Binary f) : Json :=
  match x with
  | .finite x =>
    let n : Int := roundHalfEven x.num x.den
    let n := if x.negative then -n else n
    if -(twoPow 63 : Int) ≤ n ∧ n < twoPow 63 then .int n else .null
  | _ => .null

/-- the fields of `modulationReport` as values -/
def modulationMembers : ReceiveModulation → List (String × Json)
  | .lora s => [
      ("datr", .str (datarate s).text),
      ("codr", .str s.codingRate.fraction),
      ("lsnr", rounded snrPlaces (s.snr.convert .double))]
  | .fsk s => [("datr", .int s.bitrate.toNat)]

/-- the report of a packet as a value -/
def encodeJson (p : ReceivePacket) : Json :=
  .ofMembers <|
    [ ("tmst", .int p.counter.toNat),
      ("time", .str p.receivedAt.toSecondsText),
      ("chan", .int p.ifChain.toNat),
      ("rfch", .int p.rfChain.toNat),
      ("freq", rounded frequencyPlaces (Frequency.toMegahertz p.frequency)),
      ("stat", .int p.crc.code),
      ("modu", .str p.modulation.kind.wireName)] ++
    modulationMembers p.modulation ++
    [ ("rssi", roundedWhole p.rssi),
      ("size", .int p.payload.length),
      ("data", .str (Base64.encode p.payload))]

end PacketForwarder.Uplink
