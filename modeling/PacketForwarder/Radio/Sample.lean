/-
Sample packets for tests of radios.
-/
import PacketForwarder.Packet.Receive
import PacketForwarder.Packet.Transmit

namespace PacketForwarder

/-- a LoRa downlink -/
def TransmitPacket.sample : TransmitPacket where
  immediate := false
  counter := 1000000
  gpsTime := none
  frequency := 869525000
  power := 14
  rfChain := 0
  noCrc := true
  preambleLength := 8
  modulation := .lora ⟨9, .khz125, .fourFifths, true⟩
  payload := [0xaa, 0xbb, 0xcc]

/-- a LoRa uplink -/
def ReceivePacket.sample : ReceivePacket where
  counter := 2000000
  receivedAt := ⟨1700000000, 0, by decide⟩
  frequency := 868300000
  ifChain := 1
  rfChain := 0
  crc := .ok
  modulation := .lora ⟨7, .khz125, .fourFifths, .round .single false 19 2⟩
  rssi := .round .single true 57 1
  payload := [0x40, 0x01, 0x02]

end PacketForwarder
