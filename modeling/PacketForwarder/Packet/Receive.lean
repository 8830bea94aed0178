/-
Packets that a gateway has received.
-/
import PacketForwarder.Modulation.Basic
import PacketForwarder.Modulation.Bandwidth
import PacketForwarder.Modulation.CodingRate
import PacketForwarder.Number.Shortest
import PacketForwarder.Text.Description
import PacketForwarder.Time.Instant

namespace PacketForwarder

/-- what became of the checksum -/
inductive CrcStatus where
  | ok
  | fail
  | absent
  deriving DecidableEq

namespace CrcStatus

def code : CrcStatus → Int
  | ok => 1
  | fail => -1
  | absent => 0

def ofCode? (n : Int) : Option CrcStatus := [ok, fail, absent].find? (·.code = n)

def name : CrcStatus → String
  | ok => "Ok"
  | fail => "Fail"
  | absent => "Absent"

end CrcStatus

/-- how a LoRa packet arrived -/
structure LoraReceive where
  spreadingFactor : UInt32
  bandwidth : Bandwidth
  codingRate : CodingRate
  /-- signal to noise, in dB -/
  snr : Single
  deriving DecidableEq

/-- how an FSK packet arrived -/
structure FskReceive where
  /-- bits in a second -/
  bitrate : UInt32
  deriving DecidableEq

inductive ReceiveModulation where
  | lora (settings : LoraReceive)
  | fsk (settings : FskReceive)
  deriving DecidableEq

/-- a received packet -/
structure ReceivePacket where
  /-- microseconds of the counter of the gateway -/
  counter : UInt32
  receivedAt : Instant
  /-- hertz -/
  frequency : UInt32
  ifChain : UInt8
  rfChain : UInt8
  crc : CrcStatus
  modulation : ReceiveModulation
  /-- signal strength, in dBm -/
  rssi : Single
  payload : List UInt8
  deriving DecidableEq

/-- Floats in descriptions: no exponent from `1e-4` up to below `1e16`, no sign on a positive exponent,
and of two equally near digits the greater. -/
def describedFloatStyle : FloatStyle := ⟨-4, 16, "", .up⟩

namespace ReceiveModulation

def kind : ReceiveModulation → Modulation
  | lora _ => .lora
  | fsk _ => .fsk

def describe : ReceiveModulation → Description
  | lora s => .tuple Modulation.lora.name [.record "LoRaRx" [
      ("spreading_factor", .nat s.spreadingFactor.toNat),
      ("bandwidth", .word s.bandwidth.name),
      ("coding_rate", .word s.codingRate.name),
      ("snr_db", .word (describedFloatStyle.value s.snr))]]
  | fsk s => .tuple Modulation.fsk.name [.record "FskRx" [("bitrate_bps", .nat s.bitrate.toNat)]]

end ReceiveModulation

namespace ReceivePacket

def describe (p : ReceivePacket) : Description := .record "ReceivePacket" [
  ("count_us", .nat p.counter.toNat),
  ("received_at", .word p.receivedAt.toExactText),
  ("freq_hz", .nat p.frequency.toNat),
  ("if_chain", .nat p.ifChain.toNat),
  ("rf_chain", .nat p.rfChain.toNat),
  ("crc_status", .word p.crc.name),
  ("modulation", p.modulation.describe),
  ("rssi_dbm", .word (describedFloatStyle.value p.rssi)),
  ("payload", .bytes p.payload)]

end ReceivePacket

end PacketForwarder
