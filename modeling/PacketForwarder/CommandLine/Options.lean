/-
The commands of the program and the options of each: `decode` reads a transmit request and shows the
packet, `encode` makes a report of a received packet from options. The program itself has a log level.
-/
import PacketForwarder.CommandLine.Arguments
import PacketForwarder.Log
import PacketForwarder.Modulation.Basic
import PacketForwarder.Number.Decimal
import PacketForwarder.Time.Instant

namespace PacketForwarder.CommandLine

/-- options of `decode` -/
structure DecodeOptions where
  /-- the request -/
  txpk : Option String
  /-- a file with the request -/
  file : Option String
  /-- ask for exactly one scheduling field -/
  exclusive : Bool
  deriving DecidableEq

/-- options of `encode` -/
structure EncodeOptions where
  tmst : UInt32
  /-- time of reception; now, if it is left out -/
  time : Option Instant
  chan : UInt8
  rfch : UInt8
  /-- megahertz -/
  freq : Double
  stat : Int
  modu : Modulation
  sf : UInt32
  /-- whole kilohertz -/
  bw : UInt32
  codr : String
  bitrate : UInt32
  snr : Single
  rssi : Single
  payload : String
  deriving DecidableEq

/-- a command with its options -/
inductive Operation where
  | decode (options : DecodeOptions)
  | encode (options : EncodeOptions)
  deriving DecidableEq

/-! ## Reading values -/

/-- a natural number below `2 ^ bits`, with an optional `+` -/
def readWord (bits : Nat) (text : String) : Option Nat :=
  let ds := match text.toList with
    | '+' :: ds => ds
    | ds => ds
  Decimal.natUpTo? (twoPow bits - 1) ds

/-- an integer that a signed word holds, with an optional sign -/
def readSigned (bits : Nat) (text : String) : Option Int :=
  match text.toList with
  | '-' :: ds => (Decimal.natUpTo? (twoPow (bits - 1)) ds).map fun n => -(n : Int)
  | _ => (readWord (bits - 1) text).map fun n => n

def readUInt8 (text : String) : Option UInt8 := (readWord 8 text).map .ofNat

def readUInt32 (text : String) : Option UInt32 := (readWord 32 text).map .ofNat

/-! ## Commands -/

namespace DecodeOptions

def grammar : Grammar where
  arguments := [.option "file", .flag "exclusive"]
  texts := 1
  commands := []

def ofArguments (args : List String) : Except ArgumentError DecodeOptions := do
  let s ← grammar.scan .start args
  s.checkGiven [] ["file"]
  let file ← s.option? "file" some
  let exclusive ← s.flag "exclusive"
  return { txpk := s.texts.head?, file, exclusive }

end DecodeOptions

namespace EncodeOptions

def grammar : Grammar where
  arguments := [.option "tmst", .option "time", .option "chan", .option "rfch", .option "freq",
    .hyphenOption "stat", .option "modu", .option "sf", .option "bw", .option "codr", .option "bitrate",
    .hyphenOption "snr", .hyphenOption "rssi", .option "payload"]
  texts := 0
  commands := []

def ofArguments (args : List String) : Except ArgumentError EncodeOptions := do
  let s ← grammar.scan .start args
  s.checkGiven ["freq"] ["freq", "time"]
  let tmst ← s.option "tmst" 0 readUInt32
  let time ← s.option? "time" Instant.ofText?
  let chan ← s.option "chan" 0 readUInt8
  let rfch ← s.option "rfch" 0 readUInt8
  let freq ← s.option? "freq" (Binary.ofText? .double)
  let stat ← s.option "stat" 1 (readSigned 8)
  let modu ← s.option "modu" .lora Modulation.ofWireName?
  let sf ← s.option "sf" 7 readUInt32
  let bw ← s.option "bw" 125 readUInt32
  let codr ← s.option "codr" "4/5" some
  let bitrate ← s.option "bitrate" 50000 readUInt32
  let snr ← s.option "snr" (.zero .single) (Binary.ofText? .single)
  let rssi ← s.option "rssi" (.zero .single) (Binary.ofText? .single)
  let payload ← s.option "payload" "" some
  match freq with
  | none => throw .missingArgument
  | some freq => return { tmst, time, chan, rfch, freq, stat, modu, sf, bw, codr, bitrate, snr, rssi, payload }

end EncodeOptions

namespace Operation

def commands : List String := ["decode", "encode", "help"]

/-- Asking for help: on the program, or on one command, since no command has commands of its own. -/
def helpOn : List String → ArgumentError
  | [] => .helpRequested
  | [topic] => if commands.contains topic then .helpRequested else .unknownTopic
  | _ => .unknownTopic

/-- the command with a name -/
def ofCommand (command : Option (String × List String)) : Except ArgumentError Operation :=
  match command with
  | none => .error .missingCommand
  | some (name, args) =>
    if name = "decode" then decode <$> DecodeOptions.ofArguments args
    else if name = "encode" then encode <$> EncodeOptions.ofArguments args
    else .error (helpOn args)

def grammar : Grammar := ⟨[], 0, commands⟩

/-- a command alone -/
def ofArguments (args : List String) : Except ArgumentError Operation := do
  let s ← grammar.scan .start args
  ofCommand s.command

end Operation

/-- the least severity that is written to the log, none for nothing at all -/
abbrev LogLevel := Option Severity

namespace LogLevel

def names : List (String × LogLevel) :=
  [("off", none), ("error", some .error), ("warn", some .warn), ("info", some .info),
    ("debug", some .debug), ("trace", some .trace)]

/-- the level with a name, in any case -/
def ofText? (text : String) : Option LogLevel := names.lookup (String.ofList (text.toList.map Char.toLower))

/-- is a line of this severity written? -/
def admits (level : LogLevel) (s : Severity) : Bool :=
  level.any fun least => least.rank ≤ s.rank

end LogLevel

/-- the arguments of the program: a command and, before it, a log level -/
structure ProgramOptions where
  operation : Operation
  logLevel : LogLevel
  deriving DecidableEq

namespace ProgramOptions

def grammar : Grammar := ⟨[.option "log-level"], 0, Operation.commands⟩

def ofArguments (args : List String) : Except ArgumentError ProgramOptions := do
  let s ← grammar.scan .start args
  let operation ← Operation.ofCommand s.command
  let logLevel ← s.option "log-level" (some .info) LogLevel.ofText?
  return { operation, logLevel }

end ProgramOptions

end PacketForwarder.CommandLine
