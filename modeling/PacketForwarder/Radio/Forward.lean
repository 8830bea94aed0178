/-
Between the network and a radio. A downlink goes to the radio only if it decodes, by one call; an uplink
is asked for once and fetched only if there is one.
-/
import PacketForwarder.Downlink.Decode
import PacketForwarder.Radio.Dialogue
import PacketForwarder.Uplink

namespace PacketForwarder

/-- why a downlink was not handed over to the radio -/
inductive ForwardError (ε : Type) where
  | decode (error : DecodeError)
  | radio (error : ε)

namespace ForwardError

/-- the text of an error, given that of an error of the radio -/
def message {ε : Type} (describe : ε → String) : ForwardError ε → String
  | decode e => "invalid downlink: " ++ e.message
  | radio e => "radio error: " ++ describe e

end ForwardError

/-- what is logged of a downlink that is not forwarded -/
def droppingLine (e : DecodeError) : LogLine := ⟨.warn, "Dropping downlink: " ++ e.message⟩

/-- what is logged of an uplink -/
def receivedLine (p : ReceivePacket) : LogLine :=
  ⟨.debug, s!"Received {p.modulation.kind.wireName} packet at {p.frequency.toNat} Hz, {p.payload.length} bytes"⟩

/-- decode a downlink and start to transmit it -/
def forwardDownlink {ε : Type} (policy : SchedulePolicy) (v : Json) :
    Dialogue ε (Except (ForwardError ε) Unit) := do
  let decoded := Downlink.decode policy v
  Dialogue.logAll (Downlink.decodeLog decoded)
  match decoded with
  | .error e =>
    Dialogue.log (droppingLine e)
    return .error (.decode e)
  | .ok p =>
    let started ← Dialogue.ask (.startTransmit p)
    return started.mapError .radio

/-- fetch an uplink and report it, if there is one -/
def collectUplink {ε : Type} (restart : Bool) : Dialogue ε (Except ε (Option String)) := do
  match ← Dialogue.ask (.checkReceive restart) with
  | .error e => return .error e
  | .ok false => return .ok none
  | .ok true =>
    match ← Dialogue.ask .getReceived with
    | .error e => return .error e
    | .ok p =>
      Dialogue.log (receivedLine p)
      let text := Uplink.encode p
      Dialogue.log (Uplink.encodedLine text)
      return .ok (some text)

end PacketForwarder
