/-
Packets for a gateway to transmit, and when it should. The immediate flag goes before a GPS time, and a
GPS time before the counter (`TransmitPacket.schedule`).
-/
import PacketForwarder.Modulation.Basic
import PacketForwarder.Modulation.Bandwidth
import PacketForwarder.Modulation.CodingRate
import PacketForwarder.Text.Description
import PacketForwarder.Time.Instant

namespace PacketForwarder

/-- how a LoRa packet is sent -/
structure LoraTransmit where
  spreadingFactor : UInt32
  bandwidth : Bandwidth
  codingRate : CodingRate
  invertPolarity : Bool
  deriving DecidableEq

/-- how an FSK packet is sent -/
structure FskTransmit where
  /-- bits in a second -/
  bitrate : UInt32
  deviationKhz : UInt8
  deriving DecidableEq

inductive TransmitModulation where
  | lora (settings : LoraTransmit)
  | fsk (settings : FskTransmit)
  deriving DecidableEq

/-- a packet to transmit -/
structure TransmitPacket where
  immediate : Bool
  /-- microseconds of the counter of the gateway -/
  counter : UInt32
  /-- milliseconds of GPS time -/
  gpsTime : Option UInt64
  /-- hertz -/
  frequency : UInt32
  /-- dBm -/
  power : UInt8
  rfChain : UInt8
  /-- send no checksum -/
  noCrc : Bool
  preambleLength : UInt16
  modulation : TransmitModulation
  payload : List UInt8
  deriving DecidableEq

/-- when a packet is sent -/
inductive Schedule where
  | immediate
  /-- milliseconds of GPS time -/
  | gps (millis : UInt64)
  /-- microseconds of the counter -/
  | counter (micros : UInt32)
  deriving DecidableEq

namespace Schedule

def describe : Schedule → Description
  | immediate => .word "Immediate"
  | gps t => .tuple "Gps" [.nat t.toNat]
  | counter c => .tuple "Counter" [.nat c.toNat]

end Schedule

namespace TransmitModulation

def kind : TransmitModulation → Modulation
  | lora _ => .lora
  | fsk _ => .fsk

def describe : TransmitModulation → Description
  | lora s => .tuple Modulation.lora.name [.record "LoRaTx" [
      ("spreading_factor", .nat s.spreadingFactor.toNat),
      ("bandwidth", .word s.bandwidth.name),
      ("coding_rate", .word s.codingRate.name),
      ("invert_polarity", .bool s.invertPolarity)]]
  | fsk s => .tuple Modulation.fsk.name [.record "FskTx" [
      ("bitrate_bps", .nat s.bitrate.toNat),
      ("freq_deviation_khz", .nat s.deviationKhz.toNat)]]

end TransmitModulation

namespace TransmitPacket

/-- the one of its times that a packet is sent at -/
def schedule (p : TransmitPacket) : Schedule :=
  if p.immediate then .immediate
  else match p.gpsTime with
    | some t => .gps t
    | none => .counter p.counter

/-- 1980-01-06 in seconds from 1970, where GPS time begins -/
def gpsEpoch : Int := 315964800

/-- a count of seconds, if a signed word of 64 bits holds it -/
def secondsWord? (n : Int) : Option Int := if -(twoPow 63 : Int) ≤ n ∧ n < twoPow 63 then some n else none

/-- seconds from 1970 of a GPS time; both the count and its sum with the epoch have to fit into their word -/
def gpsSeconds? (millis : UInt64) : Option Int := do
  let count ← secondsWord? (millis / 1000).toNat
  secondsWord? (count + gpsEpoch)

/-- nanoseconds of a GPS time within its second, as a product of words -/
def gpsNanos (millis : UInt64) : UInt32 := (millis % 1000).toUInt32 * 1000000

/-- the instant of a GPS time; leap seconds are not counted -/
def instantOfGps? (millis : UInt64) : Option Instant := do
  let seconds ← gpsSeconds? millis
  Instant.ofParts? seconds (gpsNanos millis).toNat

/-- the instant of the GPS time, if there is one and the calendar reaches it -/
def gpsInstant? (p : TransmitPacket) : Option Instant := p.gpsTime.bind instantOfGps?

def describe (p : TransmitPacket) : Description := .record "TransmitPacket" [
  ("immediate", .bool p.immediate),
  ("count_us", .nat p.counter.toNat),
  ("gps_time_ms", .option (p.gpsTime.map fun t => .nat t.toNat)),
  ("freq_hz", .nat p.frequency.toNat),
  ("power_dbm", .nat p.power.toNat),
  ("rf_chain", .nat p.rfChain.toNat),
  ("no_crc", .bool p.noCrc),
  ("preamble_length", .nat p.preambleLength.toNat),
  ("modulation", p.modulation.describe),
  ("payload", .bytes p.payload)]

end TransmitPacket

end PacketForwarder
