/-
Running a command. What a command reads from outside is fetched for it and given to it, so that running it
is a function; the result comes with the lines that it logs.
-/
import PacketForwarder.CommandLine.Options
import PacketForwarder.Downlink.Decode
import PacketForwarder.Uplink

namespace PacketForwarder.CommandLine

/-- why text from outside can not be read -/
inductive ReadFault where
  | missing
  | directory
  /-- a file name with a character that none can have -/
  | invalidName
  | notUnicode
  | other (message : String)
  deriving DecidableEq

namespace ReadFault

def message : ReadFault → String
  | missing => "No such file or directory (os error 2)"
  | directory => "Is a directory (os error 21)"
  | invalidName => "file name contained an unexpected NUL byte"
  | notUnicode => "stream did not contain valid UTF-8"
  | other message => message

end ReadFault

/-- why a command fails -/
inductive OperationError where
  | io (fault : ReadFault)
  | json (fault : Json.Fault)
  | decode (error : DecodeError)
  /-- an option whose value means nothing -/
  | option (name : String) (value : String)

namespace OperationError

def message : OperationError → String
  | io f => "io error: " ++ f.message
  | json f => "invalid JSON: " ++ f.message
  | decode e => e.message
  | option name value => "invalid option: " ++ name ++ " " ++ value

end OperationError

/-- the result of a command, and what it logs -/
structure Outcome where
  log : List LogLine
  result : Except OperationError String

/-- where a command reads from -/
inductive Source where
  | text (s : String)
  | file (path : String)
  | standardInput
  deriving DecidableEq

/-- What is read from a source, given what was fetched from outside. A text is read itself, and a name
with a NUL is refused, whatever was fetched. -/
def Source.read (s : Source) (fetched : Except ReadFault Json.Bytes) : Except ReadFault Json.Bytes :=
  match s with
  | .text s => .ok s.toUTF8.toList
  | .file path => if path.toList.contains '\x00' then .error .invalidName else fetched
  | .standardInput => fetched

namespace DecodeOptions

/-- a request among the arguments goes before a file, and a file before the standard input -/
def source (o : DecodeOptions) : Source :=
  match o.txpk, o.file with
  | some s, _ => .text s
  | none, some path => .file path
  | none, none => .standardInput

def policy (o : DecodeOptions) : SchedulePolicy := if o.exclusive then .exclusive else .precedence

/-- the text of bytes -/
def unicode (bytes : Json.Bytes) : Except ReadFault Json.Bytes :=
  if (String.fromUTF8? ⟨bytes.toArray⟩).isSome then .ok bytes else .error .notUnicode

/-- what is logged of a packet that is shown -/
def scheduleLine (p : TransmitPacket) : LogLine := ⟨.info, "Schedule: " ++ p.schedule.describe.line⟩

/-- Show the packet that a text asks for. The request is the text's value, or the member `txpk` of it. -/
def runOn (o : DecodeOptions) (text : Json.Bytes) : Outcome :=
  match Json.parse text with
  | .error f => ⟨[], .error (.json f)⟩
  | .ok v =>
    match Downlink.decode o.policy ((v.get? "txpk").getD v) with
    | .error e => ⟨[], .error (.decode e)⟩
    | .ok p => ⟨[Downlink.decodedLine p, scheduleLine p], .ok (p.describe.block 0)⟩

/-- show the packet that a source asks for, given what was fetched from it -/
def run (o : DecodeOptions) (fetched : Except ReadFault Json.Bytes) : Outcome :=
  match (o.source.read fetched).bind unicode with
  | .error f => ⟨[], .error (.io f)⟩
  | .ok text => o.runOn text

end DecodeOptions

namespace EncodeOptions

/-- the settings of the modulation that the options name; those of the other one are not looked at -/
def modulation (o : EncodeOptions) : Except OperationError ReceiveModulation :=
  match o.modu with
  | .fsk => .ok (.fsk ⟨o.bitrate⟩)
  | .lora =>
    match Bandwidth.ofWholeKhz? o.bw.toNat with
    | none => .error (.option "bw" (toString o.bw.toNat))
    | some bandwidth =>
      match CodingRate.ofSpelling? o.codr with
      | none => .error (.option "codr" o.codr)
      | some codingRate => .ok (.lora ⟨o.sf, bandwidth, codingRate, o.snr⟩)

/-- the packet that the options describe -/
def packet (o : EncodeOptions) (now : Instant) : Except OperationError ReceivePacket :=
  match CrcStatus.ofCode? o.stat with
  | none => .error (.option "stat" (toString o.stat))
  | some crc => do
    let modulation ← o.modulation
    return {
      counter := o.tmst
      receivedAt := o.time.getD now
      frequency := Frequency.ofMegahertz o.freq
      ifChain := o.chan
      rfChain := o.rfch
      crc
      modulation
      rssi := o.rssi
      payload := o.payload.toUTF8.toList }

/-- the report of the packet that the options describe -/
def run (o : EncodeOptions) (now : Instant) : Outcome :=
  match o.packet now with
  | .error e => ⟨[], .error e⟩
  | .ok p =>
    let text := Uplink.encode p
    ⟨[Uplink.encodedLine text], .ok text⟩

end EncodeOptions

end PacketForwarder.CommandLine
