/-
Lines of the log: a severity and a message.
-/

namespace PacketForwarder

/-- how much a line matters -/
inductive Severity where
  | trace
  | debug
  | info
  | warn
  | error
  deriving DecidableEq

namespace Severity

def name : Severity → String
  | trace => "TRACE"
  | debug => "DEBUG"
  | info => "INFO"
  | warn => "WARN"
  | error => "ERROR"

/-- severities in ascending order -/
def rank : Severity → Nat
  | trace => 0
  | debug => 1
  | info => 2
  | warn => 3
  | error => 4

end Severity

/-- a line of the log -/
structure LogLine where
  severity : Severity
  message : String
  deriving DecidableEq

namespace LogLine

def text (l : LogLine) : String := l.severity.name ++ " " ++ l.message

end LogLine

end PacketForwarder
