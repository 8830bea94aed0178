/-
Waiting for a radio, as the calls that it takes. To transmit and to receive follow one schedule: after the start, checks
and delays in turn, from a check to a check, until the radio is done, fails, or the time is up. `Polls` lists the calls
of a wait in closed form; `Transmits` and `Receives` add the calls around it.

Results:
- `waits_scheduled`: for an interval of at least a microsecond the calls are exactly these, with every radio and all its
  answers, and a wait always comes to a result. No more than `turns` delays are requested, and their sum stays within
  the timeout. The wait times out exactly if every check that fits into the time says no. A counter of 128 bits is
  enough for any two durations.
- `briefWait_scheduled`: a wait of 150 microseconds with an interval of 100.

The way there: `Round` is one round of a wait, both of the loop (`held_poll_succ`) and of the schedule
(`polls_iff_round`); `held_poll` follows the rounds, by induction on the number of checks that may be made. That number
is no part of the schedule: the counter ends the loop before it is used up.
-/
import PacketForwarder.Proofs.Radio.Exchanges
import PacketForwarder.Radio.Blocking
import PacketForwarder.Radio.Sample

namespace PacketForwarder

namespace BlockingOptions

/-- how many whole intervals fit into the time -/
def turns (o : BlockingOptions) : Nat := o.timeout.micros / o.pollInterval.micros

/-- the interval as the argument of a delay -/
def delay (o : BlockingOptions) : UInt32 := .ofNat o.pollInterval.micros

theorem toNat_delay (o : BlockingOptions) : o.delay.toNat = o.pollInterval.micros % 2 ^ 32 := UInt32.toNat_ofNat'

end BlockingOptions

namespace Blocking

open Dialogue

variable {ε : Type} {es es' : List (Exchange ε)} {o : BlockingOptions}

/-! ## Exchanges of a wait -/

inductive Direction where
  | transmit
  | receive

def Direction.check : Direction → Dialogue ε (Except ε Bool)
  | transmit => ask .checkTransmit
  | receive => ask (.checkReceive true)

def Direction.checked : Direction → Except ε Bool → Exchange ε
  | transmit, reply => ⟨.checkTransmit, reply⟩
  | receive, reply => ⟨.checkReceive true, reply⟩

theorem held_check {w : Direction} {reply : Except ε Bool} : Held w.check es reply ↔ es = [w.checked reply] := by
  cases w with
  | transmit => exact held_ask
  | receive => exact held_ask

/-- a check that says no, and a delay after it, this many times -/
def idle (w : Direction) (us : UInt32) : Nat → List (Exchange ε)
  | 0 => []
  | n + 1 => w.checked (.ok false) :: ⟨.delayUs us, ()⟩ :: idle w us n

def answer? : Exchange ε → Option (Except ε Bool)
  | ⟨.checkTransmit, reply⟩ => some reply
  | ⟨.checkReceive _, reply⟩ => some reply
  | _ => none

def delay? : Exchange ε → Option Nat
  | ⟨.delayUs us, _⟩ => some us.toNat
  | _ => none

def answers (es : List (Exchange ε)) : List (Except ε Bool) := es.filterMap answer?

def delays (es : List (Exchange ε)) : List Nat := es.filterMap delay?

theorem answers_append : answers (es ++ es') = answers es ++ answers es' := List.filterMap_append

theorem delays_append : delays (es ++ es') = delays es ++ delays es' := List.filterMap_append

@[simp]
theorem answers_checked (w : Direction) (reply : Except ε Bool) : answers [w.checked reply] = [reply] := by
  cases w <;> rfl

@[simp]
theorem delays_checked (w : Direction) (reply : Except ε Bool) : delays [w.checked reply] = [] := by
  cases w <;> rfl

theorem answers_turn {w : Direction} {us : UInt32} {reply : Except ε Bool} :
    answers (w.checked reply :: ⟨.delayUs us, ()⟩ :: es) = reply :: answers es := by
  cases w <;> rfl

theorem delays_turn {w : Direction} {us : UInt32} {reply : Except ε Bool} :
    delays (w.checked reply :: ⟨.delayUs us, ()⟩ :: es) = us.toNat :: delays es := by
  cases w <;> rfl

theorem answers_idle (w : Direction) (us : UInt32) (n : Nat) :
    answers (idle w us n : List (Exchange ε)) = List.replicate n (.ok false) := by
  induction n with
  | zero => rfl
  | succ n ih => rw [idle, answers_turn, ih, List.replicate_succ]

theorem delays_idle (w : Direction) (us : UInt32) (n : Nat) :
    delays (idle w us n : List (Exchange ε)) = List.replicate n us.toNat := by
  induction n with
  | zero => rfl
  | succ n ih => rw [idle, delays_turn, ih, List.replicate_succ]

/-! ## The schedule -/

/-- **The calls of a wait and what it comes to.** The radio is done or fails at a check, or it says no at every check
that there is time for; there is no delay after the last one. -/
inductive Polls (w : Direction) (us : UInt32) (turns : Nat) :
    List (Exchange ε) → Except (BlockingError ε) Unit → Prop where
  | finished {n : Nat} (h : n ≤ turns) : Polls w us turns (idle w us n ++ [w.checked (.ok true)]) (.ok ())
  | failed {n : Nat} (h : n ≤ turns) (e : ε) :
      Polls w us turns (idle w us n ++ [w.checked (.error e)]) (.error (.inner e))
  | timeUp : Polls w us turns (idle w us turns ++ [w.checked (.ok false)]) (.error .timeout)

/-- **The calls of a transmission**, for a wait of so many turns -/
inductive Transmits (us : UInt32) (turns : Nat) (p : TransmitPacket) :
    List (Exchange ε) → Except (BlockingError ε) Unit → Prop where
  | notStarted (e : ε) : Transmits us turns p [⟨.startTransmit p, .error e⟩] (.error (.inner e))
  | polled {es : List (Exchange ε)} {r : Except (BlockingError ε) Unit} (h : Polls .transmit us turns es r) :
      Transmits us turns p (⟨.startTransmit p, .ok ()⟩ :: es) r

/-- what comes after a wait for a packet: it is fetched, once, if there is one -/
inductive Fetches :
    Except (BlockingError ε) Unit → List (Exchange ε) → Except (BlockingError ε) ReceivePacket → Prop where
  | nothing (e : BlockingError ε) : Fetches (.error e) [] (.error e)
  | failed (e : ε) : Fetches (.ok ()) [⟨.getReceived, .error e⟩] (.error (.inner e))
  | fetched (q : ReceivePacket) : Fetches (.ok ()) [⟨.getReceived, .ok q⟩] (.ok q)

/-- **The calls of a reception**, for a wait of so many turns -/
inductive Receives (us : UInt32) (turns : Nat) :
    List (Exchange ε) → Except (BlockingError ε) ReceivePacket → Prop where
  | notStarted (e : ε) : Receives us turns [⟨.startReceive, .error e⟩] (.error (.inner e))
  | polled {es es' : List (Exchange ε)} {r : Except (BlockingError ε) Unit}
      {r' : Except (BlockingError ε) ReceivePacket} (wait : Polls .receive us turns es r) (fetch : Fetches r es' r') :
      Receives us turns (⟨.startReceive, .ok ()⟩ :: es ++ es') r'

/-- a wait that comes to a result, with the calls of a schedule -/
def Returns {α : Type} (Calls : List (Exchange ε) → Except (BlockingError ε) α → Prop) (es : List (Exchange ε))
    (r : Waited ε α) : Prop :=
  ∃ r', r = some r' ∧ Calls es r'

variable {w : Direction} {us : UInt32} {turns : Nat} {r : Except (BlockingError ε) Unit}

/-! ## The loop -/

/-- **One round** of a wait: it is the last one, or there is time for a delay and for the rest of the wait. -/
inductive Round (w : Direction) (us : UInt32) (last : Prop) (rest : List (Exchange ε) → Waited ε Unit → Prop) :
    List (Exchange ε) → Waited ε Unit → Prop where
  | finished : Round w us last rest [w.checked (.ok true)] (some (.ok ()))
  | failed (e : ε) : Round w us last rest [w.checked (.error e)] (some (.error (.inner e)))
  | timeUp (h : last) : Round w us last rest [w.checked (.ok false)] (some (.error .timeout))
  | goesOn {es : List (Exchange ε)} {r : Waited ε Unit} (h : ¬ last) (hrest : rest es r) :
      Round w us last rest (w.checked (.ok false) :: ⟨.delayUs us, ()⟩ :: es) r

theorem Round.mono {last last' : Prop} {rest rest' : List (Exchange ε) → Waited ε Unit → Prop} {r : Waited ε Unit}
    (h : Round w us last rest es r) (hlast : last ↔ last') (hrest : ¬ last → ∀ es r, rest es r → rest' es r) :
    Round w us last' rest' es r := by
  cases h with
  | finished => exact .finished
  | failed e => exact .failed e
  | timeUp h => exact .timeUp (hlast.1 h)
  | goesOn h hgoes => exact .goesOn (mt hlast.2 h) (hrest h _ _ hgoes)

/-- the schedule, round by round: the last one is that for which no turn is left -/
theorem polls_iff_round {r : Waited ε Unit} : Returns (Polls w us turns) es r ↔
    Round w us (turns = 0) (Returns (Polls w us (turns - 1))) es r := by
  apply Iff.intro
  · rintro ⟨r', rfl, h⟩
    cases h with
    | @finished n h =>
      cases n with
      | zero => exact .finished
      | succ n => exact .goesOn (by omega) ⟨_, rfl, .finished (by omega)⟩
    | @failed n h e =>
      cases n with
      | zero => exact .failed e
      | succ n => exact .goesOn (by omega) ⟨_, rfl, .failed (by omega) e⟩
    | timeUp =>
      cases turns with
      | zero => exact .timeUp rfl
      | succ turns => exact .goesOn (by omega) ⟨_, rfl, .timeUp⟩
  · intro h
    cases h with
    | finished => exact ⟨_, rfl, .finished (Nat.zero_le _)⟩
    | failed e => exact ⟨_, rfl, .failed (Nat.zero_le _) e⟩
    | timeUp h =>
      subst h
      exact ⟨_, rfl, .timeUp⟩
    | goesOn h hrest =>
      obtain ⟨r', rfl, hpolls⟩ := hrest
      obtain ⟨turns, rfl⟩ := Nat.exists_eq_succ_of_ne_zero h
      cases hpolls with
      | finished h => exact ⟨_, rfl, .finished (Nat.succ_le_succ h)⟩
      | failed h e => exact ⟨_, rfl, .failed (Nat.succ_le_succ h) e⟩
      | timeUp => exact ⟨_, rfl, .timeUp⟩

/-- the loop, round by round: the last one is that after which the counter would be beyond the timeout -/
theorem held_poll_succ {checks elapsed : Nat} {r : Waited ε Unit} : Held (poll w.check o (checks + 1) elapsed) es r ↔
    Round w o.delay (o.timeout.micros < elapsed + o.pollInterval.micros)
      (Held (poll w.check o checks (elapsed + o.pollInterval.micros))) es r := by
  rw [poll, held_bind]
  simp only [held_check]
  apply Iff.intro
  · rintro ⟨es₁, es₂, reply, rfl, rfl, h⟩
    rcases reply with e | done
    · obtain ⟨rfl, rfl⟩ := held_pure.1 h
      exact .failed e
    cases done with
    | true =>
      obtain ⟨rfl, rfl⟩ := held_pure.1 h
      exact .finished
    | false =>
      dsimp only at h
      split_ifs at h with hover
      · obtain ⟨rfl, rfl⟩ := held_pure.1 h
        exact .timeUp hover
      · obtain ⟨⟨⟩, es', rfl, hrest⟩ := held_ask_bind.1 h
        exact .goesOn hover hrest
  · intro h
    cases h with
    | finished => exact ⟨_, [], .ok true, rfl, rfl, held_pure.2 ⟨rfl, rfl⟩⟩
    | failed e => exact ⟨_, [], .error e, rfl, rfl, held_pure.2 ⟨rfl, rfl⟩⟩
    | timeUp hover =>
      refine ⟨_, [], .ok false, rfl, rfl, ?_⟩
      dsimp only
      rw [if_pos hover]
      exact held_pure.2 ⟨rfl, rfl⟩
    | goesOn hover hrest =>
      refine ⟨[_], _, .ok false, rfl, rfl, ?_⟩
      dsimp only
      rw [if_neg hover]
      exact held_ask_bind.2 ⟨(), _, rfl, hrest⟩

theorem overrun_iff {t p elapsed : Nat} (hp : 0 < p) : t < elapsed + p ↔ (t - elapsed) / p = 0 := by
  rw [Nat.div_eq_zero_iff_lt hp]
  omega

/-- after a delay one turn less is left -/
theorem turns_left {t p elapsed : Nat} : (t - (elapsed + p)) / p = (t - elapsed) / p - 1 := by
  have hone := Nat.sub_mul_div (t - elapsed) p 1
  rwa [Nat.mul_one, ← Nat.sub_add_eq] at hone

/-- **The whole loop** polls for the turns that the time left has room for, however many checks may be made beyond
that. -/
theorem held_poll {checks elapsed : Nat} {r : Waited ε Unit} (hp : 0 < o.pollInterval.micros)
    (hchecks : (o.timeout.micros - elapsed) / o.pollInterval.micros < checks) :
    Held (poll w.check o checks elapsed) es r ↔
      Returns (Polls w o.delay ((o.timeout.micros - elapsed) / o.pollInterval.micros)) es r := by
  induction checks generalizing elapsed es r with
  | zero => exact absurd hchecks (Nat.not_lt_zero _)
  | succ checks ih =>
    have hover : o.timeout.micros < elapsed + o.pollInterval.micros ↔
        (o.timeout.micros - elapsed) / o.pollInterval.micros = 0 := overrun_iff hp
    have hrest : ¬ o.timeout.micros < elapsed + o.pollInterval.micros →
        ∀ (es : List (Exchange ε)) (r : Waited ε Unit),
          Held (poll w.check o checks (elapsed + o.pollInterval.micros)) es r ↔
            Returns (Polls w o.delay ((o.timeout.micros - elapsed) / o.pollInterval.micros - 1)) es r := by
      intro hroom es r
      rw [← turns_left]
      apply ih
      rw [turns_left]
      exact Nat.lt_of_lt_of_le (Nat.sub_one_lt (mt hover.2 hroom)) (Nat.le_of_lt_succ hchecks)
    rw [held_poll_succ, polls_iff_round]
    apply Iff.intro
    · exact fun h => h.mono hover fun hroom es r => (hrest hroom es r).1
    · exact fun h => h.mono hover.symm fun hroom es r => (hrest (mt hover.1 hroom) es r).2

/-! ## The calls around the loop -/

/-- what is logged at the end of a transmission makes no call -/
theorem held_logged {waited r : Waited ε Unit} : Held (do
    match waited with
    | some (.ok ()) => Dialogue.log sentLine
    | some (.error .timeout) => Dialogue.log sendTimeoutLine
    | _ => pure ()
    return waited) es r ↔ es = [] ∧ r = waited := by
  rcases waited with _ | ⟨e | _⟩ | _
  · exact held_pure
  · exact held_pure
  · exact held_log_bind.trans held_pure
  · exact held_log_bind.trans held_pure

theorem held_transmit_iff_poll {spare : Nat} {p : TransmitPacket} {r : Waited ε Unit} :
    Held (transmit spare o p) es r ↔
      (∃ e, es = [⟨.startTransmit p, .error e⟩] ∧ r = some (.error (.inner e))) ∨
      ∃ es', es = ⟨.startTransmit p, .ok ()⟩ :: es' ∧
        Held (poll Direction.transmit.check o (o.checks spare) 0) es' r := by
  unfold transmit
  rw [held_ask_bind]
  apply Iff.intro
  · rintro ⟨reply, es', rfl, h⟩
    cases reply with
    | error e =>
      obtain ⟨rfl, rfl⟩ := held_pure.1 h
      exact .inl ⟨e, rfl, rfl⟩
    | ok =>
      obtain ⟨es₁, es₂, r₁, rfl, hpoll, hrest⟩ := held_bind.1 h
      obtain ⟨rfl, rfl⟩ := held_logged.1 hrest
      exact .inr ⟨es₁ ++ [], rfl, (List.append_nil es₁).symm ▸ hpoll⟩
  · rintro (⟨e, rfl, rfl⟩ | ⟨es', rfl, hpoll⟩)
    · exact ⟨.error e, [], rfl, held_pure.2 ⟨rfl, rfl⟩⟩
    · refine ⟨.ok (), es', rfl, held_bind.2 ⟨es', [], r, (List.append_nil es').symm, hpoll, ?_⟩⟩
      exact held_logged.2 ⟨rfl, rfl⟩

theorem held_receive_iff_poll {spare : Nat} {r : Waited ε ReceivePacket} :
    Held (receive spare o) es r ↔
      (∃ e, es = [⟨.startReceive, .error e⟩] ∧ r = some (.error (.inner e))) ∨
      (∃ es', es = ⟨.startReceive, .ok ()⟩ :: es' ∧
        Held (poll Direction.receive.check o (o.checks spare) 0) es' none ∧ r = none) ∨
      ∃ es₁ es₂ r₁ r₂, es = ⟨.startReceive, .ok ()⟩ :: es₁ ++ es₂ ∧
        Held (poll Direction.receive.check o (o.checks spare) 0) es₁ (some r₁) ∧ Fetches r₁ es₂ r₂ ∧ r = some r₂ := by
  unfold receive
  rw [held_ask_bind]
  apply Iff.intro
  · rintro ⟨reply, es', rfl, h⟩
    cases reply with
    | error e =>
      obtain ⟨rfl, rfl⟩ := held_pure.1 h
      exact .inl ⟨e, rfl, rfl⟩
    | ok =>
      obtain ⟨es₁, es₂, r₁, rfl, hpoll, hrest⟩ := held_bind.1 h
      rcases r₁ with _ | ⟨e | _⟩ | _
      · obtain ⟨rfl, rfl⟩ := held_pure.1 hrest
        exact .inr (.inl ⟨es₁ ++ [], rfl, (List.append_nil es₁).symm ▸ hpoll, rfl⟩)
      · obtain ⟨rfl, rfl⟩ := held_pure.1 hrest
        exact .inr (.inr ⟨es₁, [], _, _, rfl, hpoll, .nothing _, rfl⟩)
      · dsimp only at hrest
        rw [held_log_bind, held_pure] at hrest
        obtain ⟨rfl, rfl⟩ := hrest
        exact .inr (.inr ⟨es₁, [], _, _, rfl, hpoll, .nothing _, rfl⟩)
      · obtain ⟨fetched, es', rfl, hfetch⟩ := held_ask_bind.1 hrest
        cases fetched with
        | error e =>
          obtain ⟨rfl, rfl⟩ := held_pure.1 hfetch
          exact .inr (.inr ⟨es₁, _, _, _, rfl, hpoll, .failed e, rfl⟩)
        | ok q =>
          obtain ⟨rfl, rfl⟩ := held_pure.1 hfetch
          exact .inr (.inr ⟨es₁, _, _, _, rfl, hpoll, .fetched q, rfl⟩)
  · rintro (⟨e, rfl, rfl⟩ | ⟨es', rfl, hpoll, rfl⟩ | ⟨es₁, es₂, r₁, r₂, rfl, hpoll, hfetch, rfl⟩)
    · exact ⟨.error e, [], rfl, held_pure.2 ⟨rfl, rfl⟩⟩
    · refine ⟨.ok (), es', rfl, held_bind.2 ⟨es', [], none, (List.append_nil es').symm, hpoll, ?_⟩⟩
      exact held_pure.2 ⟨rfl, rfl⟩
    · refine ⟨.ok (), es₁ ++ es₂, rfl, held_bind.2 ⟨es₁, es₂, some r₁, rfl, hpoll, ?_⟩⟩
      cases hfetch with
      | nothing e =>
        cases e with
        | inner e => exact held_pure.2 ⟨rfl, rfl⟩
        | timeout => exact held_log_bind.2 (held_pure.2 ⟨rfl, rfl⟩)
      | failed e => exact held_ask_bind.2 ⟨.error e, [], rfl, held_pure.2 ⟨rfl, rfl⟩⟩
      | fetched q => exact held_ask_bind.2 ⟨.ok q, [], rfl, held_pure.2 ⟨rfl, rfl⟩⟩

theorem checks_of_pos {spare : Nat} (hp : 0 < o.pollInterval.micros) : o.checks spare = o.turns + 1 :=
  if_neg (Nat.ne_of_gt hp)

theorem held_poll_start {checks : Nat} {r : Waited ε Unit} (hp : 0 < o.pollInterval.micros)
    (hchecks : o.turns < checks) : Held (poll w.check o checks 0) es r ↔ Returns (Polls w o.delay o.turns) es r :=
  held_poll hp hchecks

theorem held_transmit {spare : Nat} {p : TransmitPacket} {r : Waited ε Unit} (hp : 0 < o.pollInterval.micros) :
    Held (transmit spare o p) es r ↔ Returns (Transmits o.delay o.turns p) es r := by
  rw [held_transmit_iff_poll, checks_of_pos hp]
  simp only [held_poll_start hp (Nat.lt_succ_self _)]
  apply Iff.intro
  · rintro (⟨e, rfl, rfl⟩ | ⟨es', rfl, r', rfl, h⟩)
    · exact ⟨_, rfl, .notStarted e⟩
    · exact ⟨r', rfl, .polled h⟩
  · rintro ⟨r', rfl, h⟩
    cases h with
    | notStarted e => exact .inl ⟨e, rfl, rfl⟩
    | polled h => exact .inr ⟨_, rfl, r', rfl, h⟩

theorem held_receive {spare : Nat} {r : Waited ε ReceivePacket} (hp : 0 < o.pollInterval.micros) :
    Held (receive spare o) es r ↔ Returns (Receives o.delay o.turns) es r := by
  rw [held_receive_iff_poll, checks_of_pos hp]
  simp only [held_poll_start hp (Nat.lt_succ_self _)]
  apply Iff.intro
  · rintro (⟨e, rfl, rfl⟩ | ⟨es', rfl, ⟨r', hnone, -⟩, rfl⟩ | ⟨es₁, es₂, r₁, r₂, rfl, ⟨r', hr', h⟩, hfetch, rfl⟩)
    · exact ⟨_, rfl, .notStarted e⟩
    · cases hnone
    · cases hr'
      exact ⟨r₂, rfl, .polled h hfetch⟩
  · rintro ⟨r', rfl, h⟩
    cases h with
    | notStarted e => exact .inl ⟨e, rfl, rfl⟩
    | polled wait fetch => exact .inr (.inr ⟨_, _, _, _, rfl, ⟨_, rfl, wait⟩, fetch, rfl⟩)

/-! ## What a wait takes -/

/-- what a wait of these turns asks for and hears -/
theorem Polls.measured (h : Polls w us turns es r) : ∃ n ≤ turns, ∃ last,
    answers es = List.replicate n (.ok false) ++ [last] ∧ delays es = List.replicate n us.toNat ∧
      (r = .error .timeout ↔ n = turns ∧ last = .ok false) := by
  have hanswers : ∀ n (reply : Except ε Bool),
      answers (idle w us n ++ [w.checked reply]) = List.replicate n (.ok false) ++ [reply] := by
    intro n reply
    rw [answers_append, answers_idle, answers_checked]
  have hdelays : ∀ n (reply : Except ε Bool),
      delays (idle w us n ++ [w.checked reply]) = List.replicate n us.toNat := by
    intro n reply
    rw [delays_append, delays_idle, delays_checked, List.append_nil]
  cases h with
  | @finished n h => exact ⟨n, h, .ok true, hanswers n _, hdelays n _, by simp⟩
  | @failed n h e => exact ⟨n, h, .error e, hanswers n _, hdelays n _, by simp⟩
  | timeUp => exact ⟨turns, Nat.le_refl _, .ok false, hanswers _ _, hdelays _ _, by simp⟩

/-- **The bounds of a wait, and when the time is up.** There are no more checks and delays than there is time for, and
each delay is for one interval. The time is up exactly if every check that there is time for says no. -/
structure Timely (o : BlockingOptions) (es : List (Exchange ε)) (timedOut : Prop) : Prop where
  checked : (answers es).length ≤ o.turns + 1
  delayed : ∃ n ≤ o.turns, delays es = List.replicate n o.pollInterval.micros
  within : (delays es).sum ≤ o.timeout.micros
  timedOut_iff : timedOut ↔ answers es = List.replicate (o.turns + 1) (.ok false)

theorem Polls.timely (h : Polls w o.delay o.turns es r) (hp : o.pollInterval.micros < 2 ^ 32) :
    Timely o es (r = .error .timeout) := by
  obtain ⟨n, hn, last, hanswers, hdelays, hiff⟩ := h.measured
  rw [o.toNat_delay, Nat.mod_eq_of_lt hp] at hdelays
  refine ⟨?_, ⟨n, hn, hdelays⟩, ?_, hiff.trans ?_⟩
  · rw [hanswers, List.length_append, List.length_replicate, List.length_singleton]
    omega
  · rw [hdelays, List.sum_replicate, smul_eq_mul]
    exact (Nat.mul_le_mul_right _ hn).trans (Nat.div_mul_le_self _ _)
  · rw [hanswers, List.replicate_succ']
    apply Iff.intro
    · rintro ⟨rfl, rfl⟩
      rfl
    · intro hall
      have hlength : n = o.turns := by simpa using congrArg List.length hall
      subst hlength
      exact ⟨rfl, by simpa using hall⟩

/-- calls around a wait that neither check nor delay change nothing of this -/
theorem Timely.congr {P P' : Prop} (h : Timely o es P) (hanswers : answers es' = answers es)
    (hdelays : delays es' = delays es) (hP : P' ↔ P) : Timely o es' P' where
  checked := hanswers ▸ h.checked
  delayed := hdelays ▸ h.delayed
  within := hdelays ▸ h.within
  timedOut_iff := hP.trans (hanswers ▸ h.timedOut_iff)

theorem timely_of_not_started {P : Prop} (hanswers : answers es = []) (hdelays : delays es = []) (hP : ¬ P) :
    Timely o es P where
  checked := by simp [hanswers]
  delayed := ⟨0, Nat.zero_le _, hdelays⟩
  within := by simp [hdelays]
  timedOut_iff := by
    rw [hanswers, List.replicate_succ]
    exact iff_of_false hP (List.cons_ne_nil _ _).symm

theorem Transmits.timely {p : TransmitPacket} (h : Transmits o.delay o.turns p es r)
    (hp : o.pollInterval.micros < 2 ^ 32) : Timely o es (r = .error .timeout) := by
  cases h with
  | notStarted e => exact timely_of_not_started rfl rfl (by simp)
  | polled h => exact (h.timely hp).congr rfl rfl Iff.rfl

theorem Fetches.answers_eq {r' : Except (BlockingError ε) ReceivePacket} (h : Fetches r es r') : answers es = [] := by
  cases h <;> rfl

theorem Fetches.delays_eq {r' : Except (BlockingError ε) ReceivePacket} (h : Fetches r es r') : delays es = [] := by
  cases h <;> rfl

theorem Fetches.timedOut_iff {r' : Except (BlockingError ε) ReceivePacket} (h : Fetches r es r') :
    r' = .error .timeout ↔ r = .error .timeout := by
  cases h <;> simp

theorem Receives.timely {r : Except (BlockingError ε) ReceivePacket} (h : Receives o.delay o.turns es r)
    (hp : o.pollInterval.micros < 2 ^ 32) : Timely o es (r = .error .timeout) := by
  cases h with
  | notStarted e => exact timely_of_not_started rfl rfl (by simp)
  | @polled es₁ es₂ _ _ wait fetch =>
    refine (wait.timely hp).congr ?_ ?_ fetch.timedOut_iff
    · rw [answers_append, fetch.answers_eq, List.append_nil]
      rfl
    · rw [delays_append, fetch.delays_eq, List.append_nil]
      rfl

/-! ## The counter -/

theorem micros_lt (d : Duration) : d.micros < 2 ^ 127 := by
  have hseconds := d.seconds.toNat_lt
  have hnanos := d.nanos.isLt
  unfold Duration.micros
  omega

/-- the loop with a counter of 128 bits; none where the counter overflows -/
def pollCounted (check : Dialogue ε (Except ε Bool)) (o : BlockingOptions) :
    (checks elapsed : Nat) → Dialogue ε (Option (Waited ε Unit))
  | 0, _ => return some none
  | checks + 1, elapsed => do
    match ← check with
    | .error e => return some (some (.error (.inner e)))
    | .ok true => return some (some (.ok ()))
    | .ok false =>
      let elapsed := elapsed + o.pollInterval.micros
      if 2 ^ 128 ≤ elapsed then return none
      else if o.timeout.micros < elapsed then return some (some (.error .timeout))
      else
        Dialogue.ask (.delayUs o.delay)
        pollCounted check o checks elapsed

/-- **The counter never overflows**: the loop ends before its counter is greater than both durations together. -/
theorem pollCounted_eq {check : Dialogue ε (Except ε Bool)} {checks elapsed : Nat}
    (htime : elapsed ≤ o.timeout.micros) :
    pollCounted check o checks elapsed = some <$> poll check o checks elapsed := by
  have hinterval := micros_lt o.pollInterval
  have htimeout := micros_lt o.timeout
  induction checks generalizing elapsed with
  | zero => rfl
  | succ checks ih =>
    have hfits : ¬ 2 ^ 128 ≤ elapsed + o.pollInterval.micros := by omega
    rw [pollCounted, poll, map_bind]
    congr 1
    funext reply
    rcases reply with e | done
    · rfl
    cases done with
    | true => rfl
    | false =>
      dsimp only
      rw [if_neg hfits]
      split_ifs with hover
      · rfl
      · rw [map_bind, ih (not_lt.1 hover)]
        rfl

/-! ## The schedule of both calls -/

/-- a dialogue makes exactly these calls and comes to a result, by whatever answers, and so with every radio -/
structure Scheduled {α : Type} (o : BlockingOptions) (d : Dialogue ε (Waited ε α))
    (Calls : List (Exchange ε) → Except (BlockingError ε) α → Prop) : Prop where
  held : ∀ es r, Held d es r ↔ Returns Calls es r
  always : d.Always fun es r => Returns Calls es r ∧ Timely o es (r = some (.error .timeout))

theorem scheduled_of_held {α : Type} {d : Dialogue ε (Waited ε α)}
    {Calls : List (Exchange ε) → Except (BlockingError ε) α → Prop}
    (hheld : ∀ es r, Held d es r ↔ Returns Calls es r)
    (htimely : ∀ es r', Calls es r' → Timely o es (r' = .error .timeout)) : Scheduled o d Calls where
  held := hheld
  always := by
    refine always_of_held fun es r h => ?_
    obtain ⟨r', rfl, hcalls⟩ := (hheld es r).1 h
    exact ⟨⟨r', rfl, hcalls⟩, (htimely es r' hcalls).congr rfl rfl (by rw [Option.some.injEq])⟩

/-- **The schedule of a wait.** For an interval of a microsecond or more that fits into a delay, both calls make exactly
the calls of their schedule, with every radio. More checks than it needs may be allowed, and nothing changes. A counter
of 128 bits never overflows, for any two durations. -/
theorem waits_scheduled {ε : Type} (o : BlockingOptions) (spare : Nat) (hlow : 0 < o.pollInterval.micros)
    (hhigh : o.pollInterval.micros < 2 ^ 32) :
    (∀ p, Scheduled o (transmit spare o p : Dialogue ε _) (Transmits o.delay o.turns p)) ∧
    Scheduled o (receive spare o : Dialogue ε _) (Receives o.delay o.turns) ∧
    (∀ (w : Direction) (checks : Nat), o.turns < checks → ∀ (es : List (Exchange ε)) (r : Waited ε Unit),
      Held (poll w.check o checks 0) es r ↔ Held (poll w.check o (o.turns + 1) 0) es r) ∧
    ∀ (o' : BlockingOptions) (check : Dialogue ε (Except ε Bool)) (checks : Nat),
      pollCounted check o' checks 0 = some <$> poll check o' checks 0 := by
  refine ⟨fun p => ?_, ?_, fun w checks hchecks es r => ?_, fun o' check checks => pollCounted_eq (Nat.zero_le _)⟩
  · exact scheduled_of_held (fun es r => held_transmit hlow) fun es r h => h.timely hhigh
  · exact scheduled_of_held (fun es r => held_receive hlow) fun es r h => h.timely hhigh
  · rw [held_poll_start hlow hchecks, held_poll_start hlow (Nat.lt_succ_self _)]

/-- a check every 100 microseconds, for 150 microseconds -/
def briefWait : BlockingOptions := ⟨⟨0, ⟨100000, by decide⟩⟩, ⟨0, ⟨150000, by decide⟩⟩⟩

/-- there is time for one delay, and none after the second check -/
theorem briefWait_scheduled : 0 < briefWait.pollInterval.micros ∧ briefWait.pollInterval.micros < 2 ^ 32 ∧
    Held (transmit 0 briefWait .sample : Dialogue Unit _)
      [⟨.startTransmit .sample, .ok ()⟩, ⟨.checkTransmit, .ok false⟩, ⟨.delayUs 100, ()⟩, ⟨.checkTransmit, .ok false⟩]
      (some (.error .timeout)) := by
  have hlow : 0 < briefWait.pollInterval.micros := by decide
  have hhigh : briefWait.pollInterval.micros < 2 ^ 32 := by decide
  exact ⟨hlow, hhigh, (((waits_scheduled briefWait 0 hlow hhigh).1 .sample).held _ _).2 ⟨_, rfl, .polled .timeUp⟩⟩

end Blocking

end PacketForwarder
