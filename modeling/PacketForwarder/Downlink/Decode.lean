/-
Decoding transmit requests. A request is first read as a record, then the checks run in this order: the
scheduling policy, the modulation, its datarate and coding rate, and the payload. The first check that
fails is the error, and no part of a packet is given.
-/
import PacketForwarder.Downlink.Error
import PacketForwarder.Downlink.Policy
import PacketForwarder.Frequency
import PacketForwarder.Log
import PacketForwarder.Modulation.Datarate
import PacketForwarder.Packet.Transmit

namespace PacketForwarder

namespace Request

/-- the scheduling fields of a request, under a policy -/
def checkSchedule (policy : SchedulePolicy) (r : Request) : Except DecodeError Unit :=
  if policy = .exclusive ∧ r.scheduleFields.length ≠ 1 then .error (.schedule r.scheduleFields)
  else .ok ()

/-- the LoRa settings of a request -/
def lora (r : Request) : Except DecodeError LoraTransmit :=
  match r.datr with
  | .text word =>
    match Datarate.parse word with
    | .error .format => .error (.datarateFormat word)
    | .error (.bandwidth khz) => .error (.unknownBandwidth word khz)
    | .ok datarate =>
      match CodingRate.ofSpelling? r.codr with
      | none => .error (.unknownCodingRate r.codr)
      | some codingRate =>
        .ok ⟨datarate.spreadingFactor, datarate.bandwidth, codingRate, r.ipol⟩
  | datr => .error (.datarateType .lora datr.toJson)

/-- the greatest bitrate -/
def maxBitrate : Nat := 4294967295

/-- the FSK settings of a request; the bitrate is clamped to its word -/
def fsk (r : Request) : Except DecodeError FskTransmit :=
  match r.datr with
  | .number bitrate => .ok ⟨.ofNat (bitrate.clamp maxBitrate), Deviation.ofHertz r.fdev⟩
  | datr => .error (.datarateType .fsk datr.toJson)

/-- the settings of the modulation that a request names -/
def modulation (r : Request) : Except DecodeError TransmitModulation :=
  match Modulation.ofWireName? r.modu with
  | some .lora => .lora <$> r.lora
  | some .fsk => .fsk <$> r.fsk
  | none => .error (.unknownModulation r.modu)

/-- the bytes to send -/
def payload (r : Request) : Except DecodeError (List UInt8) :=
  (Base64.decode r.data.toUTF8.toList).mapError (.payload r.data)

/-- the packet that a request asks for -/
def decode (policy : SchedulePolicy) (r : Request) : Except DecodeError TransmitPacket := do
  r.checkSchedule policy
  let modulation ← r.modulation
  let payload ← r.payload
  return {
    immediate := r.imme
    counter := r.tmst.getD 0
    gpsTime := r.tmms
    frequency := Frequency.ofMegahertz r.freq
    power := r.powe
    rfChain := r.rfch
    noCrc := r.ncrc
    preambleLength := r.prea
    modulation
    payload }

end Request

namespace Downlink

/-- the packet that a value asks for -/
def decode (policy : SchedulePolicy) (v : Json) : Except DecodeError TransmitPacket := do
  let r ← (Request.ofJson v).mapError .malformed
  r.decode policy

/-- the packet that a text asks for, where an earlier field goes before a later one -/
def decodeText (text : Json.Bytes) : Except DecodeError TransmitPacket := do
  let r ← (Request.ofText text).mapError .malformed
  r.decode .precedence

/-- what is logged of a decoded packet -/
def decodedLine (p : TransmitPacket) : LogLine :=
  ⟨.debug, s!"Decoded txpk {p.modulation.kind.wireName} at {p.frequency.toNat} Hz (" ++
    p.schedule.describe.line ++ s!"), {p.payload.length} bytes"⟩

/-- what is logged of a result of decoding -/
def decodeLog (result : Except DecodeError TransmitPacket) : List LogLine :=
  match result with
  | .ok p => [decodedLine p]
  | .error _ => []

end Downlink

end PacketForwarder
