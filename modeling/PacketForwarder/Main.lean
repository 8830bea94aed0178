/-
The program: reads its arguments, files and standard input, runs the command, and writes the result to the
standard output and the log to the standard error.
-/
import PacketForwarder.CommandLine.Run
import Std.Time.DateTime.Timestamp

namespace PacketForwarder.CommandLine

/-- the bytes of a file or of the standard input; for a text there is nothing to fetch -/
def fetch : Source → IO (Except ReadFault Json.Bytes)
  | .text _ => return .ok []
  | .standardInput => do
    let bytes ← (← IO.getStdin).readBinToEnd
    return .ok bytes.toList
  | .file path => do
    try
      let bytes ← IO.FS.readBinFile path
      return .ok bytes.toList
    catch
      | .noFileOrDirectory .. => return .error .missing
      | .inappropriateType .. => return .error .directory
      | e => return .error (.other (toString e))

/-- the present instant -/
def currentInstant : IO Instant := do
  let seconds := (← Std.Time.Timestamp.now).toSecondsSinceUnixEpoch.val
  return (Instant.ofParts? seconds 0).getD ⟨0, 0, by decide⟩

/-- run a command on the world -/
def Operation.perform : Operation → IO Outcome
  | decode o => return o.run (← fetch o.source)
  | encode o => return o.run (← currentInstant)

/-- write the lines of the log that a level admits -/
def writeLog (level : LogLevel) (lines : List LogLine) : IO Unit :=
  lines.forM fun line => do
    if LogLevel.admits level line.severity then IO.eprintln line.text

/-- run the program; the result is its exit code -/
def runProgram (args : List String) : IO UInt32 := do
  match ProgramOptions.ofArguments args with
  | .error e =>
    IO.eprintln e.message
    return if e.isFailure then 1 else 0
  | .ok options =>
    let outcome ← options.operation.perform
    writeLog options.logLevel outcome.log
    match outcome.result with
    | .ok text =>
      IO.println text
      return 0
    | .error e =>
      writeLog options.logLevel [⟨.error, e.message⟩]
      return 1

end PacketForwarder.CommandLine

def main (args : List String) : IO UInt32 := PacketForwarder.CommandLine.runProgram args
