/-
The calls that a radio answers, and the type of each answer. Of the delays a radio provides those in nanoseconds and in
microseconds. One in milliseconds is no call of its own: by the default method of its trait it comes as calls of
`delayNs`.
-/
import PacketForwarder.Packet.Receive
import PacketForwarder.Packet.Transmit

namespace PacketForwarder

/-- a call on a radio -/
inductive RadioCall where
  | startTransmit (packet : TransmitPacket)
  | checkTransmit
  | startReceive
  /-- is a packet there? `restart` asks for another attempt after a faulty one -/
  | checkReceive (restart : Bool)
  | getReceived
  | delayNs (ns : UInt32)
  | delayUs (us : UInt32)
  deriving DecidableEq

namespace RadioCall

/-- the answer to a call, of a radio with errors of type `ε`; a delay only passes -/
@[reducible] def Reply (ε : Type) : RadioCall → Type
  | startTransmit _ => Except ε Unit
  | checkTransmit => Except ε Bool
  | startReceive => Except ε Unit
  | checkReceive _ => Except ε Bool
  | getReceived => Except ε ReceivePacket
  | delayNs _ => Unit
  | delayUs _ => Unit

def describe : RadioCall → Description
  | startTransmit p => .tuple "StartTransmit" [p.describe]
  | checkTransmit => .word "CheckTransmit"
  | startReceive => .word "StartReceive"
  | checkReceive restart => .tuple "CheckReceive" [.bool restart]
  | getReceived => .word "GetReceived"
  | delayNs ns => .tuple "DelayNs" [.nat ns.toNat]
  | delayUs us => .tuple "DelayUs" [.nat us.toNat]

end RadioCall

end PacketForwarder
