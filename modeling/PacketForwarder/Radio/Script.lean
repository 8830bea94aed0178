/-
A radio that follows a script. The script is a queue of transactions, each a request with a response of any kind; what
is expected is written as a call with an answer of its kind, and these make the transactions. A call has to be the next
one requested; it takes that off the script, and the response is read as its answer. A call that is not expected, a
response of the wrong kind, or a script that is closed too early or twice, breaks the run off (`Script.Break`).
-/
import PacketForwarder.Radio.Dialogue

namespace PacketForwarder

/-- the error of a radio with a script -/
inductive ScriptError where
  | timeout
  deriving DecidableEq

namespace ScriptError

def name : ScriptError → String
  | timeout => "Timeout"

end ScriptError

/-- what a transaction responds with -/
inductive Response where
  | ok
  | bool (b : Bool)
  | received (packet : ReceivePacket)
  | error (e : ScriptError)
  deriving DecidableEq

namespace Response

variable {α : Type}

def describe : Response → Description
  | ok => .word "Ok"
  | bool b => .tuple "Bool" [.bool b]
  | received p => .tuple "Received" [p.describe]
  | error e => .tuple "Err" [.word e.name]

/-- the response for a result, given that for a value -/
def ofResult (ofValue : α → Response) : Except ScriptError α → Response
  | .ok a => ofValue a
  | .error e => error e

/-- the response for an answer -/
def ofReply : (c : RadioCall) → c.Reply ScriptError → Response
  | .startTransmit _, r => ofResult (fun _ => ok) r
  | .checkTransmit, r => ofResult bool r
  | .startReceive, r => ofResult (fun _ => ok) r
  | .checkReceive _, r => ofResult bool r
  | .getReceived, r => ofResult received r
  | .delayNs _, _ => ok
  | .delayUs _, _ => ok

def unit? : Response → Option Unit
  | ok => some ()
  | _ => none

def flag? : Response → Option Bool
  | bool b => some b
  | _ => none

def packet? : Response → Option ReceivePacket
  | received p => some p
  | _ => none

/-- the result, if the response is an error or has a value of this kind -/
def result? (value? : Response → Option α) : Response → Option (Except ScriptError α)
  | error e => some (.error e)
  | r => (value? r).map .ok

/-- the answer to a call, if the response is of its kind; a delay does not look at it -/
def reply? : (c : RadioCall) → Response → Option (c.Reply ScriptError)
  | .startTransmit _, r => r.result? unit?
  | .checkTransmit, r => r.result? flag?
  | .startReceive, r => r.result? unit?
  | .checkReceive _, r => r.result? flag?
  | .getReceived, r => r.result? packet?
  | .delayNs _, _ => some ()
  | .delayUs _, _ => some ()

end Response

/-- a request and the response to it -/
structure Transaction where
  request : RadioCall
  response : Response
  deriving DecidableEq

def Transaction.describe (t : Transaction) : Description := .record "Transaction" [
  ("request", t.request.describe),
  ("response", t.response.describe)]

/-- what transactions are made of: a call, and an answer to it -/
structure Expectation where
  call : RadioCall
  reply : call.Reply ScriptError

def Expectation.transaction (e : Expectation) : Transaction := ⟨e.call, .ofReply e.call e.reply⟩

/-- the transactions that are left, and whether the script was closed since the last ones were added -/
structure Script where
  pending : List Transaction
  closed : Bool

namespace Script

/-- why a run is broken off -/
inductive Break where
  /-- the script has come to its end -/
  | unexpected (call : RadioCall)
  | mismatch (expected actual : RadioCall)
  /-- the response is of another kind than the call -/
  | invalidResponse (response : Response)
  /-- transactions are left where none may be -/
  | leftOver
  | closedTwice
  deriving DecidableEq

def Break.message : Break → String
  | unexpected call => "no expectation for " ++ call.describe.line ++ " call"
  | mismatch expected actual =>
    "assertion `left == right` failed\n  left: " ++ expected.describe.line ++ "\n right: " ++
      actual.describe.line
  | invalidResponse response => "invalid response for request: " ++ response.describe.line
  | leftOver => "Not all expectations consumed"
  | closedTwice => "The `.done()` method was called twice!"

def start (expected : List Expectation) : Script := ⟨expected.map Expectation.transaction, false⟩

/-- the answer to a call, by the transaction that is next -/
def answerBy (t : Transaction) (c : RadioCall) : Except Break (c.Reply ScriptError) :=
  if t.request = c then
    match t.response.reply? c with
    | some reply => .ok reply
    | none => .error (.invalidResponse t.response)
  else .error (.mismatch t.request c)

/-- the answer to a call, and the script after it; a call that breaks off has taken its transaction off too -/
def answer (s : Script) (c : RadioCall) : Except Break (c.Reply ScriptError) × Script :=
  match s.pending with
  | [] => (.error (.unexpected c), s)
  | t :: rest => (answerBy t c, { s with pending := rest })

/-- take the next transaction off -/
def next (s : Script) : Option Transaction × Script :=
  (s.pending.head?, { s with pending := s.pending.tail })

/-- add what is expected, where no transactions are left -/
def expect (s : Script) (more : List Expectation) : Except Break Script :=
  if s.pending.isEmpty then .ok (start more) else .error .leftOver

/-- close the script, once, where no transactions are left -/
def close (s : Script) : Except Break Script :=
  if s.closed then .error .closedTwice
  else if s.pending.isEmpty then .ok { s with closed := true } else .error .leftOver

/-- what is logged before a call is looked up -/
def linesBefore : RadioCall → List LogLine
  | .startTransmit p => [⟨.debug, "Start transmit " ++ p.describe.line⟩]
  | .startReceive => [⟨.debug, "Start receive"⟩]
  | _ => []

/-- a result as the log shows it -/
def resultText {α : Type} (describe : α → Description) : Except ScriptError α → String
  | .ok a => (Description.tuple "Ok" [describe a]).line
  | .error e => (Description.tuple "Err" [.word e.name]).line

/-- what is logged of an answer -/
def linesAfter : (c : RadioCall) → c.Reply ScriptError → List LogLine
  | .checkTransmit, r => [⟨.debug, "Check transmit " ++ resultText .bool r⟩]
  | .checkReceive _, r => [⟨.debug, "Check receive " ++ resultText .bool r⟩]
  | .getReceived, r => [⟨.debug, "Get received " ++ resultText ReceivePacket.describe r⟩]
  | .startTransmit _, _ => []
  | .startReceive, _ => []
  | .delayNs _, _ => []
  | .delayUs _, _ => []

/-- a run of a dialogue: the script, and the log with its last line first -/
structure Run where
  script : Script
  log : List LogLine

/-- runs that may break off; the script and the log are kept then too -/
abbrev RunM := ExceptT Break (StateM Run)

namespace Run

def write (line : LogLine) : RunM Unit := modify fun r => { r with log := line :: r.log }

/-- answer a call from the script -/
def answerCall (c : RadioCall) : RunM (c.Reply ScriptError) := do
  (linesBefore c).forM write
  let r ← get
  let (reply, script) := r.script.answer c
  set { r with script }
  let reply ← reply
  (linesAfter c reply).forM write
  return reply

/-- hold a dialogue with the script -/
def hold {α : Type} (d : Dialogue ScriptError α) : RunM α := d.run answerCall write

end Run

end Script

end PacketForwarder
