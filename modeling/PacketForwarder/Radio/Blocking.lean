/-
Transmitting and receiving to the end. The radio is asked again and again, with a delay between two
checks, until it is done, fails, or the time is up. Time is counted in whole microseconds and only by the
delays. A poll interval below a microsecond counts as none: then the time is never up, and `spare` says
how many checks are made before the wait is given up without a result.
-/
import PacketForwarder.Radio.Dialogue

namespace PacketForwarder

/-- a span of time -/
structure Duration where
  seconds : UInt64
  nanos : Fin 1000000000
  deriving DecidableEq

namespace Duration

/-- the span with these counts, if its seconds are not too many; whole seconds of nanoseconds are carried -/
def ofParts? (seconds nanos : Nat) : Option Duration :=
  let total := seconds + nanos / 1000000000
  if total < twoPow 64 then some ⟨.ofNat total, ⟨nanos % 1000000000, Nat.mod_lt _ (by decide)⟩⟩ else none

/-- whole microseconds -/
def micros (d : Duration) : Nat := d.seconds.toNat * 1000000 + d.nanos / 1000

end Duration

/-- how long to wait, and how long between two checks -/
structure BlockingOptions where
  pollInterval : Duration
  timeout : Duration
  deriving DecidableEq

namespace BlockingOptions

/-- a check every 100 microseconds, for 100 milliseconds -/
def standard : BlockingOptions := ⟨⟨0, 100000⟩, ⟨0, 100000000⟩⟩

/-- how many checks may be made -/
def checks (spare : Nat) (o : BlockingOptions) : Nat :=
  if o.pollInterval.micros = 0 then spare else o.timeout.micros / o.pollInterval.micros + 1

end BlockingOptions

/-- why a wait ended without success -/
inductive BlockingError (ε : Type) where
  | inner (error : ε)
  | timeout
  deriving DecidableEq

/-- how a wait ended; none where it did not end within the checks that were made -/
abbrev Waited (ε α : Type) := Option (Except (BlockingError ε) α)

namespace Blocking

variable {ε : Type}

/-- ask until the answer is true; `elapsed` is the time counted so far -/
def poll (check : Dialogue ε (Except ε Bool)) (o : BlockingOptions) :
    (checks elapsed : Nat) → Dialogue ε (Waited ε Unit)
  | 0, _ => return none
  | checks + 1, elapsed => do
    match ← check with
    | .error e => return some (.error (.inner e))
    | .ok true => return some (.ok ())
    | .ok false =>
      let elapsed := elapsed + o.pollInterval.micros
      if o.timeout.micros < elapsed then return some (.error .timeout)
      else
        Dialogue.ask (.delayUs (.ofNat o.pollInterval.micros))
        poll check o checks elapsed

def sentLine : LogLine := ⟨.debug, "Blocking send complete"⟩

def sendTimeoutLine : LogLine := ⟨.debug, "Blocking send timeout"⟩

def receiveTimeoutLine : LogLine := ⟨.debug, "Blocking receive timeout"⟩

/-- start to transmit and wait until the radio is done -/
def transmit (spare : Nat) (o : BlockingOptions) (p : TransmitPacket) : Dialogue ε (Waited ε Unit) := do
  match ← Dialogue.ask (.startTransmit p) with
  | .error e => return some (.error (.inner e))
  | .ok () =>
    let waited ← poll (Dialogue.ask .checkTransmit) o (o.checks spare) 0
    match waited with
    | some (.ok ()) => Dialogue.log sentLine
    | some (.error .timeout) => Dialogue.log sendTimeoutLine
    | _ => pure ()
    return waited

/-- start to receive and wait for a packet -/
def receive (spare : Nat) (o : BlockingOptions) : Dialogue ε (Waited ε ReceivePacket) := do
  match ← Dialogue.ask .startReceive with
  | .error e => return some (.error (.inner e))
  | .ok () =>
    match ← poll (Dialogue.ask (.checkReceive true)) o (o.checks spare) 0 with
    | none => return none
    | some (.error (.inner e)) => return some (.error (.inner e))
    | some (.error .timeout) =>
      Dialogue.log receiveTimeoutLine
      return some (.error .timeout)
    | some (.ok ()) =>
      match ← Dialogue.ask .getReceived with
      | .error e => return some (.error (.inner e))
      | .ok p => return some (.ok p)

end Blocking

end PacketForwarder
