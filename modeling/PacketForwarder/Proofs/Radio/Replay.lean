/-
Calls on a radio with a script. A script that was made of expectations answers these calls, in this order, with these
answers; the first call that is another one breaks the run off, and so does a call after the last one, or closing the
script before it. `play` makes the calls, one after the other, and closes the script; `Replays` says what becomes of
them, by the part that the calls have in common with the script.

Results:
- `answerBy_transaction`: the response of a transaction is always of the kind of its request, so it is an answer.
- `Reached.answer_ne`: no script that can be reached has a response of the wrong kind for a call.
- `closes_iff`: a dialogue comes to its end with a script, and leaves nothing of it, exactly if the script is what is
  said in it.
- `script_replayed`: what becomes of a run of calls is what `Replays` says; it finishes exactly if the calls are those
  of the script, and has the answers of the script then.
- `twoExpectations_replayed`: two calls that are the script, and two that are not.

The way there: one call on a script (`answer_cons`), the calls of a part of the script (`play_append`), and by these the
four ways in which a run may end (`play_of_replays`).
-/
import Mathlib.Tactic
import PacketForwarder.Proofs.Radio.Exchanges
import PacketForwarder.Radio.Script

namespace PacketForwarder

variable {E : List Expectation} {C : List RadioCall} {log : List LogLine}

/-! ## Responses -/

/-- what is written as the response to a call is read as the answer it was written for -/
theorem Response.reply?_ofReply (c : RadioCall) (reply : c.Reply ScriptError) :
    (Response.ofReply c reply).reply? c = some reply := by
  cases c with
  | startTransmit _ | checkTransmit | startReceive | checkReceive _ | getReceived => cases reply <;> rfl
  | delayNs _ | delayUs _ => rfl

def Expectation.exchange (e : Expectation) : Exchange ScriptError := ⟨e.call, e.reply⟩

namespace Script

/-- **A call is answered by its own transaction**, and a mismatch for every other one: the response is never of the
wrong kind. -/
theorem answerBy_transaction (e : Expectation) (c : RadioCall) :
    answerBy e.transaction c = if h : e.call = c then .ok (h ▸ e.reply) else .error (.mismatch e.call c) := by
  obtain ⟨call, reply⟩ := e
  by_cases h : call = c
  · subst h
    simp only [answerBy, Expectation.transaction, Response.reply?_ofReply, if_true, dif_pos]
  · simp only [answerBy, Expectation.transaction, h, if_false, dif_neg, not_false_iff]

/-! ## Scripts that can be reached -/

/-- all transactions of a script were made of expectations -/
def Paired (s : Script) : Prop := ∀ t ∈ s.pending, ∃ e : Expectation, t = e.transaction

/-- the scripts that are reached from a new one, by calls and by all else that can be done with a script -/
inductive Reached : Script → Prop where
  | start (expected : List Expectation) : Reached (start expected)
  | answer {s : Script} (h : Reached s) (c : RadioCall) : Reached (s.answer c).2
  | next {s : Script} (h : Reached s) : Reached s.next.2
  | expect {s s' : Script} {more : List Expectation} (h : Reached s) (hexpect : s.expect more = .ok s') : Reached s'
  | close {s s' : Script} (h : Reached s) (hclose : s.close = .ok s') : Reached s'

theorem paired_start (expected : List Expectation) : (start expected).Paired := by
  intro t ht
  obtain ⟨e, -, rfl⟩ := List.mem_map.1 ht
  exact ⟨e, rfl⟩

theorem pending_answer (s : Script) (c : RadioCall) : (s.answer c).2.pending = s.pending.tail := by
  obtain ⟨pending, closed⟩ := s
  cases pending <;> rfl

theorem pending_close {s s' : Script} (h : s.close = .ok s') : s'.pending = s.pending := by
  rw [close] at h
  split_ifs at h
  cases h
  rfl

theorem Paired.of_tail {s s' : Script} (h : s.Paired) (htail : s'.pending = s.pending.tail) : s'.Paired :=
  fun t ht => h t (List.mem_of_mem_tail (htail ▸ ht))

theorem Reached.paired {s : Script} (h : Reached s) : s.Paired := by
  induction h with
  | start expected => exact paired_start expected
  | answer _ c ih => exact ih.of_tail (pending_answer _ c)
  | next _ ih => exact ih.of_tail rfl
  | expect _ hexpect _ =>
    rw [Script.expect] at hexpect
    split_ifs at hexpect
    cases hexpect
    exact paired_start _
  | close _ hclose ih => exact fun t ht => ih t (pending_close hclose ▸ ht)

/-- **No response of a script that can be reached is of the wrong kind.** -/
theorem Reached.answer_ne {s : Script} (h : Reached s) (c : RadioCall) (response : Response) :
    (s.answer c).1 ≠ .error (.invalidResponse response) := by
  obtain ⟨pending, closed⟩ := s
  cases pending with
  | nil => exact nofun
  | cons t rest =>
    obtain ⟨e, rfl⟩ := h.paired t List.mem_cons_self
    change answerBy e.transaction c ≠ _
    rw [answerBy_transaction]
    split_ifs
    · exact nofun
    · exact nofun

/-! ## One call -/

theorem answer_nil (c : RadioCall) : (start []).answer c = (.error (.unexpected c), start []) := rfl

theorem answer_cons (e : Expectation) (E : List Expectation) (c : RadioCall) : (start (e :: E)).answer c =
    (if h : e.call = c then .ok (h ▸ e.reply) else .error (.mismatch e.call c), start E) :=
  Prod.ext (answerBy_transaction e c) rfl

theorem close_start : (∃ s, (start E).close = .ok s) ↔ E = [] := by
  cases E with
  | nil => exact iff_of_true ⟨_, rfl⟩ rfl
  | cons e E => exact iff_of_false (fun ⟨s, h⟩ => nomatch h) (List.cons_ne_nil e E)

namespace Run

theorem run_bind {α β : Type} (m : RunM α) (f : α → RunM β) (r : Run) : (m >>= f).run.run r =
    match m.run.run r with
    | (.ok a, r') => (f a).run.run r'
    | (.error b, r') => (.error b, r') := by
  change (ExceptT.bindCont f (m.run.run r).1).run (m.run.run r).2 = _
  obtain ⟨result, r'⟩ := m.run.run r
  cases result <;> rfl

theorem run_forM_write (lines : List LogLine) (r : Run) :
    (lines.forM write).run.run r = (.ok (), { r with log := lines.reverse ++ r.log }) := by
  induction lines generalizing r with
  | nil => rfl
  | cons line lines ih =>
    refine (ih { r with log := line :: r.log }).trans ?_
    rw [List.reverse_cons, List.append_assoc, List.singleton_append]

theorem run_get (r : Run) : (get : RunM Run).run.run r = (.ok r, r) := rfl

theorem run_set (r r' : Run) : (set r' : RunM Unit).run.run r = (.ok (), r') := rfl

theorem run_lift {α : Type} (result : Except Break α) (r : Run) : (liftM result : RunM α).run.run r = (result, r) := by
  cases result <;> rfl

theorem run_answerCall (c : RadioCall) (r : Run) : ∃ log,
    (answerCall c).run.run r = ((r.script.answer c).1, ⟨(r.script.answer c).2, log⟩) := by
  simp only [answerCall, run_bind, run_forM_write, run_get, run_set, run_lift]
  cases (r.script.answer c).1 with
  | error b => exact ⟨_, rfl⟩
  | ok reply => exact ⟨_, rfl⟩

end Run

/-! ## Runs of calls -/

inductive Ending where
  /-- all calls were answered, and the script was closed -/
  | finished
  | atCall (call : RadioCall) (why : Break)
  | atClose (why : Break)

/-- make calls, one after the other, and close the script: the calls that were answered, with their answers, and how
it ends -/
def play : List RadioCall → Run → List (Exchange ScriptError) × Ending
  | [], r =>
    match r.script.close with
    | .ok _ => ([], .finished)
    | .error b => ([], .atClose b)
  | c :: cs, r =>
    match (Run.answerCall c).run.run r with
    | (.ok reply, r') => (⟨c, reply⟩ :: (play cs r').1, (play cs r').2)
    | (.error b, _) => ([], .atCall c b)

/-- **What becomes of calls on a script.** What the calls have in common with the script is answered by it. Then both
are at their end, or the next call is another one than the next of the script, or there is none left for it, or there
are no more calls and the script is not at its end. -/
inductive Replays : List Expectation → List RadioCall → List (Exchange ScriptError) → Ending → Prop where
  | finished (E : List Expectation) : Replays E (E.map (·.call)) (E.map (·.exchange)) .finished
  | mismatched (common rest : List Expectation) (e : Expectation) (c : RadioCall) (later : List RadioCall)
      (h : e.call ≠ c) : Replays (common ++ e :: rest) (common.map (·.call) ++ c :: later)
        (common.map (·.exchange)) (.atCall c (.mismatch e.call c))
  | surplus (E : List Expectation) (c : RadioCall) (later : List RadioCall) :
      Replays E (E.map (·.call) ++ c :: later) (E.map (·.exchange)) (.atCall c (.unexpected c))
  | leftOver (common rest : List Expectation) (e : Expectation) :
      Replays (common ++ e :: rest) (common.map (·.call)) (common.map (·.exchange)) (.atClose .leftOver)

variable {es : List (Exchange ScriptError)} {ending : Ending}

theorem play_nil (E : List Expectation) (log : List LogLine) : play [] ⟨start E, log⟩ =
    ([], if E = [] then .finished else .atClose .leftOver) := by
  cases E <;> rfl

/-- the step: a call that is the next one of the script has its answer -/
theorem play_cons_of_eq (e : Expectation) (E : List Expectation) (C : List RadioCall) (log : List LogLine) :
    ∃ log', play (e.call :: C) ⟨start (e :: E), log⟩ =
      (e.exchange :: (play C ⟨start E, log'⟩).1, (play C ⟨start E, log'⟩).2) := by
  obtain ⟨log', hanswer⟩ := Run.run_answerCall e.call ⟨start (e :: E), log⟩
  rw [answer_cons, dif_pos rfl] at hanswer
  exact ⟨log', by rw [play, hanswer]; rfl⟩

theorem play_cons_of_error {c : RadioCall} {b : Break} (h : ((start E).answer c).1 = .error b) (C : List RadioCall)
    (log : List LogLine) : play (c :: C) ⟨start E, log⟩ = ([], .atCall c b) := by
  obtain ⟨log', hanswer⟩ := Run.run_answerCall c ⟨start E, log⟩
  rw [h] at hanswer
  rw [play, hanswer]

/-- **The run: a part of the script answers its calls**, and what is after it stays for the calls after these. -/
theorem play_append (common E : List Expectation) (C : List RadioCall) (log : List LogLine) :
    ∃ log', play (common.map (·.call) ++ C) ⟨start (common ++ E), log⟩ =
      (common.map (·.exchange) ++ (play C ⟨start E, log'⟩).1, (play C ⟨start E, log'⟩).2) := by
  induction common generalizing log with
  | nil => exact ⟨log, rfl⟩
  | cons e common ih =>
    obtain ⟨log₁, hfirst⟩ := play_cons_of_eq e (common ++ E) (common.map (·.call) ++ C) log
    obtain ⟨log₂, hrest⟩ := ih log₁
    refine ⟨log₂, hfirst.trans ?_⟩
    rw [hrest]
    rfl

theorem play_append_nil (common : List Expectation) (h : ∀ log, play C ⟨start E, log⟩ = ([], ending))
    (log : List LogLine) : play (common.map (·.call) ++ C) ⟨start (common ++ E), log⟩ =
      (common.map (·.exchange), ending) := by
  obtain ⟨log', hplay⟩ := play_append common E C log
  rw [hplay, h, List.append_nil]

theorem play_of_replays (h : Replays E C es ending) (log : List LogLine) : play C ⟨start E, log⟩ = (es, ending) := by
  cases h with
  | finished =>
    have hplay := play_append_nil E (play_nil []) log
    rwa [List.append_nil, List.append_nil] at hplay
  | mismatched common rest e c later h =>
    have hanswer : ((start (e :: rest)).answer c).1 = .error (.mismatch e.call c) := by rw [answer_cons, dif_neg h]
    exact play_append_nil common (play_cons_of_error hanswer later) log
  | surplus E c later =>
    have hplay := play_append_nil E (play_cons_of_error (congrArg Prod.fst (answer_nil c)) later) log
    rwa [List.append_nil] at hplay
  | leftOver common rest e =>
    have hplay := play_append_nil common (play_nil (e :: rest)) log
    rwa [List.append_nil] at hplay

theorem Replays.cons (e : Expectation) (h : Replays E C es ending) :
    Replays (e :: E) (e.call :: C) (e.exchange :: es) ending := by
  cases h with
  | finished => exact .finished (e :: E)
  | mismatched common rest e' c later h => exact .mismatched (e :: common) rest e' c later h
  | surplus _ c later => exact .surplus (e :: E) c later
  | leftOver common rest e' => exact .leftOver (e :: common) rest e'

theorem exists_replays (E : List Expectation) (C : List RadioCall) : ∃ es ending, Replays E C es ending := by
  induction C generalizing E with
  | nil =>
    cases E with
    | nil => exact ⟨_, _, .finished []⟩
    | cons e E => exact ⟨_, _, .leftOver [] E e⟩
  | cons c C ih =>
    cases E with
    | nil => exact ⟨_, _, .surplus [] c C⟩
    | cons e E =>
      by_cases h : e.call = c
      · obtain ⟨es, ending, hrest⟩ := ih E
        exact ⟨_, _, h ▸ hrest.cons e⟩
      · exact ⟨_, _, .mismatched [] E e c C h⟩

theorem play_eq_iff : play C ⟨start E, log⟩ = (es, ending) ↔ Replays E C es ending := by
  apply Iff.intro
  · intro h
    obtain ⟨es', ending', hreplays⟩ := exists_replays E C
    obtain ⟨rfl, rfl⟩ := Prod.mk.inj (h.symm.trans (play_of_replays hreplays log))
    exact hreplays
  · exact fun h => play_of_replays h log

theorem replays_finished_iff : (∃ es, Replays E C es .finished) ↔ C = E.map (·.call) := by
  apply Iff.intro
  · rintro ⟨es, h⟩
    cases h
    rfl
  · rintro rfl
    exact ⟨_, .finished E⟩

/-- the calls of the script are as many as its expectations, and each is the call that is expected in its place -/
theorem eq_map_call_iff : C = E.map (·.call) ↔
    C.length = E.length ∧ ∀ (i : Nat) (h : i < C.length) (h' : i < E.length), C[i] = E[i].call := by
  apply Iff.intro
  · rintro rfl
    exact ⟨List.length_map _, fun i h h' => List.getElem_map _⟩
  · rintro ⟨hlength, hcall⟩
    refine List.ext_getElem (hlength.trans (List.length_map _).symm) fun i h h' => ?_
    rw [List.getElem_map]
    exact hcall i h (hlength ▸ h)

/-! ## Dialogues -/

/-- a dialogue comes to a result, and the script can be closed after it -/
def Closes {α : Type} (d : Dialogue ScriptError α) (r : Run) (a : α) : Prop :=
  ∃ r', (Run.hold d).run.run r = (.ok a, r') ∧ ∃ s, r'.script.close = .ok s

section Dialogues

variable {α : Type} {a : α}

theorem closes_done {a₀ : α} : Closes (.done a₀) ⟨start E, log⟩ a ↔ E = [] ∧ a = a₀ := by
  apply Iff.intro
  · rintro ⟨r', hrun, hclose⟩
    obtain ⟨hresult, rfl⟩ := Prod.mk.inj hrun
    exact ⟨close_start.1 hclose, (Except.ok.inj hresult).symm⟩
  · rintro ⟨rfl, rfl⟩
    exact ⟨_, rfl, close_start.2 rfl⟩

/-- the answer to a call is that of the script, and the dialogue goes on with what is left of it -/
theorem closes_call (c : RadioCall) (next : c.Reply ScriptError → Dialogue ScriptError α) (r : Run) (a : α) :
    ∃ log, Closes (.call c next) r a ↔
      ∃ reply, (r.script.answer c).1 = .ok reply ∧ Closes (next reply) ⟨(r.script.answer c).2, log⟩ a := by
  obtain ⟨log, hanswer⟩ := Run.run_answerCall c r
  have hhold : Run.hold (.call c next) = Run.answerCall c >>= fun reply => Run.hold (next reply) := rfl
  refine ⟨log, ?_⟩
  rw [Closes, hhold, Run.run_bind, hanswer]
  cases (r.script.answer c).1 with
  | error b =>
    refine iff_of_false ?_ ?_
    · rintro ⟨r', h, -⟩
      cases h
    · rintro ⟨reply, h, -⟩
      cases h
  | ok reply =>
    apply Iff.intro
    · exact fun h => ⟨reply, rfl, h⟩
    · rintro ⟨reply', h, hcloses⟩
      cases h
      exact hcloses

/-- **A dialogue and a script come to their ends together** exactly if the script is what is said in the dialogue. -/
theorem closes_iff {d : Dialogue ScriptError α} : Closes d ⟨start E, log⟩ a ↔ d.Held (E.map (·.exchange)) a := by
  induction d generalizing E log with
  | done a₀ => rw [closes_done, Dialogue.held_done, List.map_eq_nil_iff]
  | note line rest ih => exact Iff.trans ih Dialogue.held_note.symm
  | call c next ih =>
    obtain ⟨log', hstep⟩ := closes_call c next ⟨start E, log⟩ a
    rw [hstep, Dialogue.held_call]
    cases E with
    | nil =>
      refine iff_of_false ?_ ?_
      · rintro ⟨reply, hanswer, -⟩
        cases hanswer
      · rintro ⟨reply, es, hes, -⟩
        cases hes
    | cons e E =>
      rw [answer_cons]
      apply Iff.intro
      · rintro ⟨reply, hanswer, hrest⟩
        dsimp only at hanswer
        split_ifs at hanswer with h
        subst h
        cases hanswer
        exact ⟨_, _, rfl, (ih _).1 hrest⟩
      · rintro ⟨reply, es, hes, hrest⟩
        obtain ⟨hexchange, rfl⟩ := List.cons.inj hes
        cases hexchange
        exact ⟨_, dif_pos rfl, (ih _).2 hrest⟩

end Dialogues

/-! ## The script -/

/-- **A script is replayed exactly.** What becomes of any calls is what `Replays` says. They finish exactly if they are
the calls that are expected, as many of them and each in its place, and the answers are those of the script then. A
dialogue, which chooses its calls by the answers, finishes exactly if the script is what is said in it. In no script
that can be reached is a response of the wrong kind for a call. -/
theorem script_replayed (E : List Expectation) (C : List RadioCall) (log : List LogLine) :
    (∀ es ending, play C ⟨start E, log⟩ = (es, ending) ↔ Replays E C es ending) ∧
    ((play C ⟨start E, log⟩).2 = .finished ↔
      C.length = E.length ∧ ∀ (i : Nat) (h : i < C.length) (h' : i < E.length), C[i] = E[i].call) ∧
    ((play C ⟨start E, log⟩).2 = .finished → (play C ⟨start E, log⟩).1 = E.map (·.exchange)) ∧
    (∀ (α : Type) (d : Dialogue ScriptError α) (a : α),
      Closes d ⟨start E, log⟩ a ↔ d.Held (E.map (·.exchange)) a) ∧
    ∀ s : Script, s.Reached → ∀ c response, (s.answer c).1 ≠ .error (.invalidResponse response) := by
  have hreplays : Replays E C (play C ⟨start E, log⟩).1 (play C ⟨start E, log⟩).2 := play_eq_iff.1 rfl
  refine ⟨fun es ending => play_eq_iff, ?_, ?_, fun α d a => closes_iff, fun s hs c response => hs.answer_ne c response⟩
  · rw [← eq_map_call_iff, ← replays_finished_iff]
    apply Iff.intro
    · exact fun h => ⟨_, h ▸ hreplays⟩
    · rintro ⟨es, h⟩
      exact congrArg Prod.snd (play_of_replays h log)
  · intro h
    rw [h] at hreplays
    generalize (play C ⟨start E, log⟩).1 = es at hreplays
    cases hreplays
    rfl

def twoExpectations : List Expectation := [⟨.checkTransmit, .ok true⟩, ⟨.delayUs 100, ()⟩]

/-- the two calls have the two answers; a delay of another unit is a mismatch, after the answer to the check -/
theorem twoExpectations_replayed :
    (play [.checkTransmit, .delayUs 100] ⟨start twoExpectations, []⟩).1 =
      [⟨.checkTransmit, .ok true⟩, ⟨.delayUs 100, ()⟩] ∧
    (play [.checkTransmit, .delayUs 100] ⟨start twoExpectations, []⟩).2 = .finished ∧
    play [.checkTransmit, .delayNs 100] ⟨start twoExpectations, []⟩ =
      ([⟨.checkTransmit, .ok true⟩], .atCall (.delayNs 100) (.mismatch (.delayUs 100) (.delayNs 100))) ∧
    ((start twoExpectations).answer .getReceived).1 ≠ .error (.invalidResponse (.bool true)) := by
  obtain ⟨-, hfinished, hanswers, -⟩ := script_replayed twoExpectations [.checkTransmit, .delayUs 100] []
  obtain ⟨hreplays, -, -, -, hvalid⟩ := script_replayed twoExpectations [.checkTransmit, .delayNs 100] []
  have hends := hfinished.2 ⟨rfl, fun i h h' => by
    match i with
    | 0 => rfl
    | 1 => rfl⟩
  refine ⟨hanswers hends, hends, (hreplays _ _).2 ?_, hvalid _ (.start twoExpectations) _ _⟩
  exact .mismatched [⟨.checkTransmit, .ok true⟩] [] ⟨.delayUs 100, ()⟩ (.delayNs 100) [] nofun

end Script

end PacketForwarder
