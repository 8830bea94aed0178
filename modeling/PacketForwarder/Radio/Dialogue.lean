/-
What is done with a radio, without the radio: a dialogue makes calls, goes on according to the answers,
and writes to the log on its way. `Dialogue.run` holds it with a radio, given by its answers in any monad;
the calls of a run and their order are thus those of the dialogue, whatever the radio does.
-/
import PacketForwarder.Log
import PacketForwarder.Radio.Call

namespace PacketForwarder

/-- calls on a radio with errors of type `ε`, and a result -/
inductive Dialogue (ε α : Type) where
  | done (result : α)
  | note (line : LogLine) (rest : Dialogue ε α)
  | call (call : RadioCall) (next : call.Reply ε → Dialogue ε α)

namespace Dialogue

variable {ε α β : Type}

/-- one dialogue after the other -/
def bind : Dialogue ε α → (α → Dialogue ε β) → Dialogue ε β
  | done a, f => f a
  | note line rest, f => note line (rest.bind f)
  | call c next, f => call c fun reply => (next reply).bind f

instance : Monad (Dialogue ε) where
  pure := done
  bind := bind

/-- a line of the log -/
def log (line : LogLine) : Dialogue ε Unit := note line (done ())

/-- lines of the log -/
def logAll (lines : List LogLine) : Dialogue ε Unit := lines.forM log

/-- a call, with its answer as the result -/
def ask (c : RadioCall) : Dialogue ε (c.Reply ε) := call c done

/-- hold a dialogue with a radio that answers in a monad -/
def run {m : Type → Type} [Monad m] (answer : (c : RadioCall) → m (c.Reply ε)) (log : LogLine → m Unit) :
    Dialogue ε α → m α
  | done a => pure a
  | note line rest => do log line; run answer log rest
  | call c next => do
    let reply ← answer c
    run answer log (next reply)

end Dialogue

end PacketForwarder
