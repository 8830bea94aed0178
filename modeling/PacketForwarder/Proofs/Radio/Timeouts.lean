/-
When the timeout ends a wait, and what was asked of the radio until then. The loop counts whole intervals in whole
microseconds, and it counts the delays, not the time that passes: an interval below a microsecond counts as nothing, and
a delay is asked for with the low 32 bits of the interval.

Results:
- `timeout_ends_iff`: on a radio that starts and is never done there is a bound on the checks after which the wait times
  out if and only if the interval is at least a microsecond; the bound is one check more than there are turns. For a
  shorter interval the wait outlasts every number of checks, whatever the timeout.
- `timeout_requested`: the delays before a timeout come to more than the timeout less one interval if and only if the
  interval fits into 32 bits, or the timeout is below the interval and its low 32 bits together.
Witnesses:
- `halfMicrosecond_endless`: an interval of half a microsecond has no bound; 100 microseconds have one.
- `longInterval_premature`: with an interval of 4295 seconds a wait of 8590 seconds times out after delays of 65
  milliseconds.
-/
import PacketForwarder.Proofs.Radio.Polling

namespace PacketForwarder.Blocking

open Dialogue

variable {ε : Type} {es : List (Exchange ε)} {o : BlockingOptions} {w : Direction} {us : UInt32} {turns : Nat}

/-! ## Radios that are never done -/

/-- an answer that keeps a wait going: the radio has started, or it is not done -/
def KeepsWaiting : Exchange ε → Prop
  | ⟨.startTransmit _, reply⟩ => reply = .ok ()
  | ⟨.startReceive, reply⟩ => reply = .ok ()
  | ⟨.checkTransmit, reply⟩ => reply = .ok false
  | ⟨.checkReceive _, reply⟩ => reply = .ok false
  | _ => True

theorem keepsWaiting_checked {reply : Except ε Bool} : KeepsWaiting (w.checked reply) ↔ reply = .ok false := by
  cases w <;> exact Iff.rfl

/-- a radio that starts, is never done, and has no state -/
def silentRadio : Radio Unit Unit := fun c => pure <|
  match c with
  | .startTransmit _ => .ok ()
  | .checkTransmit => .ok false
  | .startReceive => .ok ()
  | .checkReceive _ => .ok false
  | .getReceived => .error ()
  | .delayNs _ => ()
  | .delayUs _ => ()

theorem silentRadio_keepsWaiting {es : List (Exchange Unit)} {s s' : Unit} (h : silentRadio.Answers s es s') :
    ∀ e ∈ es, KeepsWaiting e := by
  induction h with
  | nil => intro e he; cases he
  | @cons s s' s'' c reply es first _ ih =>
    have hreply : reply = ((silentRadio c).run s).1 := by rw [first]
    intro e he
    rcases List.mem_cons.1 he with rfl | he
    · rw [hreply]
      cases c <;> first | exact rfl | exact trivial
    · exact ih e he

/-- On a radio that starts and is never done, this holds of the result and of the number of checks. -/
def OnIdle {α : Type} (d : Dialogue ε α) (Q : α → Nat → Prop) : Prop :=
  d.Always fun es r => (∀ e ∈ es, KeepsWaiting e) → Q r (answers es).length

/-! ## An interval of a microsecond or more -/

theorem Polls.timedOut {r : Except (BlockingError ε) Unit} (h : Polls w us turns es r)
    (hwait : ∀ e ∈ es, KeepsWaiting e) : r = .error .timeout := by
  have last : ∀ {es' : List (Exchange ε)} {reply : Except ε Bool},
      es = es' ++ [w.checked reply] → reply = .ok false := by
    intro es' reply hes
    exact keepsWaiting_checked.1 (hwait (w.checked reply) (by simp [hes]))
  cases h with
  | finished => cases last rfl
  | failed => cases last rfl
  | timeUp => rfl

theorem Polls.length_answers_le {r : Except (BlockingError ε) Unit} (h : Polls w us turns es r) :
    (answers es).length ≤ turns + 1 := by
  obtain ⟨n, hn, last, hanswers, -⟩ := h.measured
  rw [hanswers, List.length_append, List.length_replicate, List.length_singleton]
  omega

theorem Transmits.timedOut {p : TransmitPacket} {r : Except (BlockingError ε) Unit} (h : Transmits us turns p es r)
    (hwait : ∀ e ∈ es, KeepsWaiting e) : r = .error .timeout ∧ (answers es).length ≤ turns + 1 := by
  cases h with
  | notStarted e => cases hwait _ (List.mem_singleton_self _)
  | polled h => exact ⟨h.timedOut fun e he => hwait e (List.mem_cons_of_mem _ he), h.length_answers_le⟩

theorem Receives.timedOut {r : Except (BlockingError ε) ReceivePacket} (h : Receives us turns es r)
    (hwait : ∀ e ∈ es, KeepsWaiting e) : r = .error .timeout ∧ (answers es).length ≤ turns + 1 := by
  cases h with
  | notStarted e => cases hwait _ (List.mem_singleton_self _)
  | polled wait fetch =>
    refine ⟨fetch.timedOut_iff.2 (wait.timedOut fun e he => hwait e ?_), ?_⟩
    · exact List.mem_append_left _ (List.mem_cons_of_mem _ he)
    · rw [answers_append, fetch.answers_eq, List.append_nil]
      exact wait.length_answers_le

/-! ## An interval below a microsecond -/

theorem checks_of_zero {spare : Nat} (hp : o.pollInterval.micros = 0) : o.checks spare = spare := if_pos hp

/-- The counter stands still, so the loop makes every check that it may make. -/
theorem held_poll_still {checks elapsed : Nat} {r : Waited ε Unit} (hp : o.pollInterval.micros = 0)
    (htime : elapsed ≤ o.timeout.micros) (h : Held (poll w.check o checks elapsed) es r)
    (hwait : ∀ e ∈ es, KeepsWaiting e) : r = none ∧ (answers es).length = checks := by
  induction checks generalizing elapsed es with
  | zero =>
    obtain ⟨rfl, rfl⟩ := held_pure.1 h
    exact ⟨rfl, rfl⟩
  | succ checks ih =>
    cases held_poll_succ.1 h with
    | finished => cases keepsWaiting_checked.1 (hwait _ (List.mem_singleton_self _))
    | failed => cases keepsWaiting_checked.1 (hwait _ (List.mem_singleton_self _))
    | timeUp hover => omega
    | goesOn hover hrest =>
      obtain ⟨rfl, hlength⟩ := ih (not_lt.1 hover) hrest fun e he => hwait e (by simp [he])
      exact ⟨rfl, by rw [answers_turn, List.length_cons, hlength]⟩

theorem held_transmit_still {spare : Nat} {p : TransmitPacket} {r : Waited ε Unit} (hp : o.pollInterval.micros = 0)
    (h : Held (transmit spare o p) es r) (hwait : ∀ e ∈ es, KeepsWaiting e) :
    r = none ∧ (answers es).length = spare := by
  rcases held_transmit_iff_poll.1 h with ⟨e, rfl, -⟩ | ⟨es', rfl, hpoll⟩
  · cases hwait _ (List.mem_singleton_self _)
  · rw [checks_of_zero hp] at hpoll
    obtain ⟨rfl, hlength⟩ := held_poll_still hp (Nat.zero_le _) hpoll fun e he => hwait e (List.mem_cons_of_mem _ he)
    exact ⟨rfl, hlength⟩

theorem held_receive_still {spare : Nat} {r : Waited ε ReceivePacket} (hp : o.pollInterval.micros = 0)
    (h : Held (receive spare o) es r) (hwait : ∀ e ∈ es, KeepsWaiting e) :
    r = none ∧ (answers es).length = spare := by
  rcases held_receive_iff_poll.1 h with ⟨e, rfl, -⟩ | ⟨es', rfl, hpoll, rfl⟩ | ⟨es₁, es₂, r₁, r₂, rfl, hpoll, -, -⟩
  · cases hwait _ (List.mem_singleton_self _)
  · rw [checks_of_zero hp] at hpoll
    have hstill := held_poll_still hp (Nat.zero_le _) hpoll fun e he => hwait e (List.mem_cons_of_mem _ he)
    exact ⟨rfl, hstill.2⟩
  · have hstill := held_poll_still hp (Nat.zero_le _) hpoll fun e he =>
      hwait e (List.mem_append_left _ (List.mem_cons_of_mem _ he))
    cases hstill.1

/-! ## When there is a bound -/

/-- **Both calls time out** on a radio that starts and is never done, after so many checks at most, if that many may be
made. -/
def EndsWithin (o : BlockingOptions) (bound : Nat) : Prop :=
  ∀ (ε : Type) (spare : Nat), bound ≤ spare →
    (∀ p, OnIdle (transmit spare o p : Dialogue ε _) fun r n => r = some (.error .timeout) ∧ n ≤ bound) ∧
    OnIdle (receive spare o : Dialogue ε _) fun r n => r = some (.error .timeout) ∧ n ≤ bound

/-- **Neither call comes to an end** on such a radio: each makes all the checks that it may make. -/
def Endless (o : BlockingOptions) : Prop :=
  ∀ (ε : Type) (spare : Nat),
    (∀ p, OnIdle (transmit spare o p : Dialogue ε _) fun r n => r = none ∧ n = spare) ∧
    OnIdle (receive spare o : Dialogue ε _) fun r n => r = none ∧ n = spare

theorem endsWithin_of_pos (hp : 0 < o.pollInterval.micros) : EndsWithin o (o.turns + 1) := by
  refine fun ε spare _ => ⟨fun p => always_of_held fun es r h hwait => ?_, always_of_held fun es r h hwait => ?_⟩
  · obtain ⟨r', rfl, hcalls⟩ := (held_transmit hp).1 h
    obtain ⟨rfl, hlength⟩ := hcalls.timedOut hwait
    exact ⟨rfl, hlength⟩
  · obtain ⟨r', rfl, hcalls⟩ := (held_receive hp).1 h
    obtain ⟨rfl, hlength⟩ := hcalls.timedOut hwait
    exact ⟨rfl, hlength⟩

theorem endless_of_zero (hp : o.pollInterval.micros = 0) : Endless o := fun _ _ =>
  ⟨fun _ => always_of_held fun _ _ h hwait => held_transmit_still hp h hwait,
    always_of_held fun _ _ h hwait => held_receive_still hp h hwait⟩

/-- the silent radio shows that the two exclude each other -/
theorem Endless.not_endsWithin (h : Endless o) (bound : Nat) : ¬ EndsWithin o bound := by
  intro hends
  obtain ⟨es, -, hanswers, hnone⟩ := ((h Unit bound).1 .sample).2 Unit silentRadio ()
  obtain ⟨es', -, hanswers', htimeout⟩ := ((hends Unit bound (Nat.le_refl _)).1 .sample).2 Unit silentRadio ()
  have hresult := (hnone (silentRadio_keepsWaiting hanswers)).1
  rw [(htimeout (silentRadio_keepsWaiting hanswers')).1] at hresult
  cases hresult

/-- **The timeout ends a wait** exactly for intervals of a microsecond or more, and then after one check more than there
are turns. For shorter ones the wait is endless, whatever the timeout. -/
theorem timeout_ends_iff (o : BlockingOptions) :
    ((∃ bound, EndsWithin o bound) ↔ 0 < o.pollInterval.micros) ∧
    (0 < o.pollInterval.micros → EndsWithin o (o.turns + 1)) ∧
    (o.pollInterval.micros = 0 → Endless o) := by
  refine ⟨⟨fun ⟨bound, hends⟩ => ?_, fun hp => ⟨_, endsWithin_of_pos hp⟩⟩, endsWithin_of_pos, endless_of_zero⟩
  by_contra hp
  exact (endless_of_zero (Nat.eq_zero_of_not_pos hp)).not_endsWithin bound hends

/-- half a microsecond between two checks, for one microsecond -/
def halfMicrosecond : BlockingOptions := ⟨⟨0, ⟨500, by decide⟩⟩, ⟨0, ⟨1000, by decide⟩⟩⟩

theorem halfMicrosecond_endless : (¬ ∃ bound, EndsWithin halfMicrosecond bound) ∧ Endless halfMicrosecond ∧
    EndsWithin briefWait 2 := by
  have hzero : halfMicrosecond.pollInterval.micros = 0 := by decide
  have hpos : 0 < briefWait.pollInterval.micros := by decide
  refine ⟨fun hbound => ?_, (timeout_ends_iff halfMicrosecond).2.2 hzero, (timeout_ends_iff briefWait).2.1 hpos⟩
  exact Nat.ne_of_gt ((timeout_ends_iff halfMicrosecond).1.1 hbound) hzero

/-! ## What was requested -/

/-- **How long a wait asked the radio to delay**: all its turns, each with the low 32 bits of the interval. It is more
than the timeout less one interval only for some intervals. -/
structure Requested (o : BlockingOptions) (es : List (Exchange ε)) : Prop where
  sum : (delays es).sum = o.turns * (o.pollInterval.micros % 2 ^ 32)
  enough_iff : o.timeout.micros < (delays es).sum + o.pollInterval.micros ↔
    o.pollInterval.micros < 2 ^ 32 ∨ o.timeout.micros < o.pollInterval.micros + o.pollInterval.micros % 2 ^ 32

/-- A cut-off interval, taken for each turn, comes up to the last interval of the time exactly if nothing is cut off or
there is room for one turn at most and its rest. -/
theorem lt_turns_iff {p t m : Nat} (hp : 0 < p) (hm : 0 < m) :
    t < t / p * (p % m) + p ↔ p < m ∨ t < p + p % m := by
  have htime := Nat.div_add_mod' t p
  have hrest := Nat.mod_lt t hp
  have hcut := Nat.mod_lt p hm
  rcases Nat.lt_or_ge p m with hsmall | hlarge
  · rw [Nat.mod_eq_of_lt hsmall]
    exact iff_of_true (by omega) (.inl hsmall)
  have hlost : p % m + m ≤ p := by
    have hwhole := Nat.mod_add_div p m
    have hquotient := Nat.le_mul_of_pos_right m (Nat.div_pos hlarge hm)
    omega
  generalize t / p = turns at *
  match turns with
  | 0 => omega
  | 1 => omega
  | n + 2 =>
    -- two turns lose more than an interval
    have hshort : (n + 2) * (p % m) + p ≤ (n + 2) * p := calc
      (n + 2) * (p % m) + p ≤ (n + 2) * (p % m) + 2 * (p - p % m) := by omega
      _ ≤ (n + 2) * (p % m) + (n + 2) * (p - p % m) := Nat.add_le_add_left (Nat.mul_le_mul_right _ (by omega)) _
      _ = (n + 2) * p := by rw [← Nat.mul_add, Nat.add_sub_cancel' (by omega)]
    have hfull : 2 * p ≤ (n + 2) * p := Nat.mul_le_mul_right _ (by omega)
    exact iff_of_false (by omega) (by omega)

theorem Polls.requested (h : Polls w us turns es (.error .timeout)) :
    delays es = List.replicate turns us.toNat := by
  obtain ⟨n, -, last, -, hdelays, hiff⟩ := h.measured
  obtain ⟨rfl, -⟩ := hiff.1 rfl
  exact hdelays

theorem Transmits.requested {p : TransmitPacket} (h : Transmits us turns p es (.error .timeout)) :
    delays es = List.replicate turns us.toNat := by
  cases h with
  | polled h => exact h.requested

theorem Receives.requested (h : Receives us turns es (.error .timeout)) :
    delays es = List.replicate turns us.toNat := by
  cases h with
  | polled wait fetch =>
    rw [fetch.timedOut_iff.1 rfl] at wait
    rw [delays_append, fetch.delays_eq, List.append_nil]
    exact wait.requested

theorem requested_of_delays (hp : 0 < o.pollInterval.micros)
    (h : delays es = List.replicate o.turns o.delay.toNat) : Requested o es := by
  have hsum : (delays es).sum = o.turns * (o.pollInterval.micros % 2 ^ 32) := by
    rw [h, List.sum_replicate, smul_eq_mul, o.toNat_delay]
  exact ⟨hsum, hsum ▸ lt_turns_iff hp (Nat.two_pow_pos 32)⟩

/-- **What was requested before a timeout.** Whenever a call times out, with whatever radio, its delays come to what
`Requested` says. -/
theorem timeout_requested {ε : Type} (o : BlockingOptions) (spare : Nat) (hp : 0 < o.pollInterval.micros) :
    (∀ p, (transmit spare o p : Dialogue ε _).Always fun es r => r = some (.error .timeout) → Requested o es) ∧
    (receive spare o : Dialogue ε _).Always fun es r => r = some (.error .timeout) → Requested o es := by
  refine ⟨fun p => always_of_held fun es r h hr => ?_, always_of_held fun es r h hr => ?_⟩
  · obtain ⟨r', rfl, hcalls⟩ := (held_transmit hp).1 h
    cases hr
    exact requested_of_delays hp hcalls.requested
  · obtain ⟨r', rfl, hcalls⟩ := (held_receive hp).1 h
    cases hr
    exact requested_of_delays hp hcalls.requested

/-- 4295 seconds between two checks, for twice as long; 32 bits hold less than the interval -/
def longInterval : BlockingOptions := ⟨⟨4295, ⟨0, by decide⟩⟩, ⟨8590, ⟨0, by decide⟩⟩⟩

/-- the silent radio is asked to delay twice, each time for 32704 microseconds, and the wait times out -/
theorem longInterval_premature : 0 < longInterval.pollInterval.micros ∧ ∃ es,
    Held (transmit 3 longInterval .sample) es (some (.error .timeout)) ∧ silentRadio.Answers () es () ∧
      (delays es).sum = 65408 ∧
      ¬ longInterval.timeout.micros < (delays es).sum + longInterval.pollInterval.micros := by
  have hp : 0 < longInterval.pollInterval.micros := by decide
  have hends := (endsWithin_of_pos hp Unit 3 (by decide)).1 .sample
  obtain ⟨es, hheld, hanswers, htimedOut⟩ := hends.2 Unit silentRadio ()
  rw [(htimedOut (silentRadio_keepsWaiting hanswers)).1] at hheld
  have hrequested := ((timeout_requested longInterval 3 hp).1 .sample).1 es _ hheld rfl
  have hsum : (delays es).sum = 65408 := hrequested.sum.trans (by decide)
  exact ⟨hp, es, hheld, hanswers, hsum, hsum ▸ by decide⟩

end PacketForwarder.Blocking
