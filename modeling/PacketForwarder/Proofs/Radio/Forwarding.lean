/-
A forwarder over a whole run. It is asked, again and again and in any order, to forward a downlink or to collect an
uplink, on one radio. `Serves` says of one operation which calls it makes, by the answers that the radio gives, and what
it returns; `ServesAll` says it of a list of operations, one after the other.

Results:
- `session_served`: a run is what `ServesAll` says, with every radio and all its answers. The packets to send come to
  the radio in the order of their requests, those that are accepted once each and no others; of the packets received,
  each is reported once and in order. What is rejected asks nothing of the radio, whatever it is run with.
- `countingRadio_served`: a run with one of each.

The way there: `held_perform` is the step, with one case per operation and answer; `held_session` follows the list.
-/
import PacketForwarder.Proofs.Downlink.Acceptance
import PacketForwarder.Proofs.Downlink.NonObjects
import PacketForwarder.Proofs.Radio.Exchanges
import PacketForwarder.Radio.Forward
import PacketForwarder.Radio.Sample
import PacketForwarder.Radio.Script

namespace PacketForwarder.Forwarding

open Dialogue

variable {ε σ : Type} {es : List (Exchange ε)} {policy : SchedulePolicy} {v : Json}

/-! ## Operations -/

inductive Operation where
  | forward (policy : SchedulePolicy) (v : Json)
  | collect (restart : Bool)

inductive Result (ε : Type) where
  | forwarded (result : Except (ForwardError ε) Unit)
  | collected (result : Except ε (Option String))

def Operation.perform : Operation → Dialogue ε (Result ε)
  | forward policy v => .forwarded <$> forwardDownlink policy v
  | collect restart => .collected <$> collectUplink restart

def session : List Operation → Dialogue ε (List (Result ε))
  | [] => return []
  | op :: ops => do
    let r ← op.perform
    let rs ← session ops
    return r :: rs

/-- **What one operation asks of the radio and returns**, by the answers. -/
inductive Serves : Operation → List (Exchange ε) → Result ε → Prop where
  | rejected {policy : SchedulePolicy} {v : Json} {e : DecodeError} (h : Downlink.decode policy v = .error e) :
      Serves (.forward policy v) [] (.forwarded (.error (.decode e)))
  | started {policy : SchedulePolicy} {v : Json} {p : TransmitPacket} (h : Downlink.decode policy v = .ok p) :
      Serves (.forward policy v) [⟨.startTransmit p, .ok ()⟩] (.forwarded (.ok ()))
  | notStarted {policy : SchedulePolicy} {v : Json} {p : TransmitPacket} (h : Downlink.decode policy v = .ok p)
      (e : ε) : Serves (.forward policy v) [⟨.startTransmit p, .error e⟩] (.forwarded (.error (.radio e)))
  | notChecked (restart : Bool) (e : ε) :
      Serves (.collect restart) [⟨.checkReceive restart, .error e⟩] (.collected (.error e))
  | nothing (restart : Bool) : Serves (.collect restart) [⟨.checkReceive restart, .ok false⟩] (.collected (.ok none))
  | notFetched (restart : Bool) (e : ε) :
      Serves (.collect restart) [⟨.checkReceive restart, .ok true⟩, ⟨.getReceived, .error e⟩] (.collected (.error e))
  | reported (restart : Bool) (q : ReceivePacket) :
      Serves (.collect restart) [⟨.checkReceive restart, .ok true⟩, ⟨.getReceived, .ok q⟩]
        (.collected (.ok (some (Uplink.encode q))))

inductive ServesAll : List Operation → List (Exchange ε) → List (Result ε) → Prop where
  | nil : ServesAll [] [] []
  | cons {op : Operation} {ops : List Operation} {es es' : List (Exchange ε)} {r : Result ε} {rs : List (Result ε)}
      (first : Serves op es r) (rest : ServesAll ops es' rs) : ServesAll (op :: ops) (es ++ es') (r :: rs)

/-! ## One operation -/

theorem held_forward {r : Except (ForwardError ε) Unit} :
    Held (forwardDownlink policy v) es r ↔ Serves (.forward policy v) es (.forwarded r) := by
  unfold forwardDownlink
  dsimp only
  rw [held_logAll_bind]
  cases hdecode : Downlink.decode policy v with
  | error e =>
    rw [held_log_bind, held_pure]
    apply Iff.intro
    · rintro ⟨rfl, rfl⟩
      exact .rejected hdecode
    · intro h
      cases h with
      | rejected h => cases hdecode.symm.trans h; exact ⟨rfl, rfl⟩
      | started h => cases hdecode.symm.trans h
      | notStarted h => cases hdecode.symm.trans h
  | ok p =>
    rw [held_ask_bind]
    simp only [held_pure]
    apply Iff.intro
    · rintro ⟨reply, es', rfl, rfl, rfl⟩
      cases reply with
      | error e => exact .notStarted hdecode e
      | ok => exact .started hdecode
    · intro h
      cases h with
      | rejected h => cases hdecode.symm.trans h
      | started h => cases hdecode.symm.trans h; exact ⟨.ok (), [], rfl, rfl, rfl⟩
      | notStarted h e => cases hdecode.symm.trans h; exact ⟨.error e, [], rfl, rfl, rfl⟩

theorem held_collect {restart : Bool} {r : Except ε (Option String)} :
    Held (collectUplink restart) es r ↔ Serves (.collect restart) es (.collected r) := by
  unfold collectUplink
  rw [held_ask_bind]
  apply Iff.intro
  · rintro ⟨reply, es', rfl, h⟩
    rcases reply with e | found
    · obtain ⟨rfl, rfl⟩ := held_pure.1 h
      exact .notChecked restart e
    · cases found with
      | false =>
        obtain ⟨rfl, rfl⟩ := held_pure.1 h
        exact .nothing restart
      | true =>
        obtain ⟨fetched, es', rfl, hfetch⟩ := held_ask_bind.1 h
        cases fetched with
        | error e =>
          obtain ⟨rfl, rfl⟩ := held_pure.1 hfetch
          exact .notFetched restart e
        | ok q =>
          have hlogged := held_log_bind.1 hfetch
          rw [held_log_bind, held_pure] at hlogged
          obtain ⟨rfl, rfl⟩ := hlogged
          exact .reported restart q
  · intro h
    cases h with
    | notChecked _ e => exact ⟨.error e, [], rfl, held_pure.2 ⟨rfl, rfl⟩⟩
    | nothing => exact ⟨.ok false, [], rfl, held_pure.2 ⟨rfl, rfl⟩⟩
    | notFetched _ e =>
      exact ⟨.ok true, _, rfl, held_ask_bind.2 ⟨.error e, [], rfl, held_pure.2 ⟨rfl, rfl⟩⟩⟩
    | reported _ q =>
      refine ⟨.ok true, _, rfl, held_ask_bind.2 ⟨.ok q, [], rfl, ?_⟩⟩
      exact held_log_bind.2 (held_log_bind.2 (held_pure.2 ⟨rfl, rfl⟩))

/-- **One operation** makes the calls that it is to make. -/
theorem held_perform {op : Operation} {r : Result ε} : Held op.perform es r ↔ Serves op es r := by
  cases op with
  | forward policy v =>
    unfold Operation.perform
    simp only [held_map, held_forward]
    apply Iff.intro
    · rintro ⟨r', h, rfl⟩
      exact h
    · intro h
      cases r with
      | forwarded r' => exact ⟨r', h, rfl⟩
      | collected r' => cases h
  | collect restart =>
    unfold Operation.perform
    simp only [held_map, held_collect]
    apply Iff.intro
    · rintro ⟨r', h, rfl⟩
      exact h
    · intro h
      cases r with
      | forwarded r' => cases h
      | collected r' => exact ⟨r', h, rfl⟩

/-! ## Many operations -/

/-- **Operations in a row** make the calls of each, one after the other. -/
theorem held_session {ops : List Operation} {rs : List (Result ε)} :
    Held (session ops) es rs ↔ ServesAll ops es rs := by
  induction ops generalizing es rs with
  | nil =>
    unfold session
    rw [held_pure]
    apply Iff.intro
    · rintro ⟨rfl, rfl⟩
      exact .nil
    · rintro ⟨⟩
      exact ⟨rfl, rfl⟩
  | cons op ops ih =>
    unfold session
    simp only [held_bind, held_perform, ih, held_pure]
    apply Iff.intro
    · rintro ⟨es₁, es₂, r, rfl, hfirst, es₃, es₄, rs', rfl, hrest, rfl, rfl⟩
      rw [List.append_nil]
      exact .cons hfirst hrest
    · intro h
      cases h with
      | cons first rest => exact ⟨_, _, _, rfl, first, _, [], _, (List.append_nil _).symm, rest, rfl, rfl⟩

/-! ## What goes in comes out -/

def sent? : Exchange ε → Option TransmitPacket
  | ⟨.startTransmit p, _⟩ => some p
  | _ => none

def delivered? : Exchange ε → Option ReceivePacket
  | ⟨.getReceived, .ok q⟩ => some q
  | _ => none

/-- the packet that is to be forwarded, if its downlink is accepted -/
def Operation.accepted? : Operation → Option TransmitPacket
  | forward policy v => (Downlink.decode policy v).toOption
  | collect _ => none

def Result.reported? : Result ε → Option String
  | collected (.ok text) => text
  | _ => none

/-- **Nothing is lost, made up, repeated or put in another order**, either way. -/
structure Faithful (ops : List Operation) (es : List (Exchange ε)) (rs : List (Result ε)) : Prop where
  results : rs.length = ops.length
  sent : es.filterMap sent? = ops.filterMap Operation.accepted?
  reported : rs.filterMap Result.reported? = (es.filterMap delivered?).map Uplink.encode

variable {ops ops' : List Operation} {es' : List (Exchange ε)} {rs rs' : List (Result ε)}

theorem Faithful.append (h : Faithful ops es rs) (h' : Faithful ops' es' rs') :
    Faithful (ops ++ ops') (es ++ es') (rs ++ rs') where
  results := by rw [List.length_append, List.length_append, h.results, h'.results]
  sent := by rw [List.filterMap_append, List.filterMap_append, h.sent, h'.sent]
  reported := by
    rw [List.filterMap_append, List.filterMap_append, List.map_append, h.reported, h'.reported]

/-- the step: one operation is faithful -/
theorem Serves.faithful {op : Operation} {r : Result ε} (h : Serves op es r) : Faithful [op] es [r] := by
  cases h with
  | rejected h | started h | notStarted h => exact ⟨rfl, by simp [sent?, Operation.accepted?, h, Except.toOption], rfl⟩
  | notChecked | nothing | notFetched | reported => exact ⟨rfl, rfl, rfl⟩

/-- **So are any number of operations.** -/
theorem ServesAll.faithful (h : ServesAll ops es rs) : Faithful ops es rs := by
  induction h with
  | nil => exact ⟨rfl, rfl, rfl⟩
  | cons first _ ih => exact first.faithful.append ih

/-! ## What is rejected -/

/-- A downlink is dropped without a call, whatever answers the calls: a line of the log and the error are all that comes
of it. A script is left as it was. -/
structure AsksNothing (policy : SchedulePolicy) (v : Json) (e : DecodeError) : Prop where
  run : ∀ (ε : Type) (m : Type → Type) [Monad m] (answer : (c : RadioCall) → m (c.Reply ε)) (log : LogLine → m Unit),
    (forwardDownlink policy v).run answer log = do
      log (droppingLine e)
      return .error (.decode e)
  script : ∀ r : Script.Run, (Script.Run.hold (forwardDownlink policy v)).run.run r =
    (.ok (.error (.decode e)), { r with log := droppingLine e :: r.log })

theorem asksNothing_of_error {e : DecodeError} (h : Downlink.decode policy v = .error e) : AsksNothing policy v e where
  run ε m _ answer log := by
    rw [forwardDownlink_error h]
    rfl
  script r := by
    rw [forwardDownlink_error h]
    rfl

/-! ## Runs -/

/-- **Forwarding over a whole run.** By whatever answers, the operations make the calls that `ServesAll` lists and
return what it says; so they do with every radio that has a state. Nothing is lost on either way, and a downlink that is
not accepted never comes to the radio. -/
theorem session_served {ε : Type} (ops : List Operation) :
    (∀ es rs, Held (session ops : Dialogue ε _) es rs ↔ ServesAll ops es rs) ∧
    (∀ (σ : Type) (radio : Radio ε σ) (s s' : σ) (rs : List (Result ε)), (session ops).holdWith radio s = (rs, s') ↔
      ∃ es, ServesAll ops es rs ∧ radio.Answers s es s') ∧
    (∀ (es : List (Exchange ε)) (rs : List (Result ε)), ServesAll ops es rs → Faithful ops es rs) ∧
    ∀ policy v e, Downlink.decode policy v = .error e → AsksNothing policy v e := by
  refine ⟨fun es rs => held_session, fun σ radio s s' rs => ?_, fun es rs h => h.faithful, ?_⟩
  · rw [holdWith_eq_iff]
    simp only [held_session]
  · exact fun policy v e h => asksNothing_of_error h

/-- a radio that is never at a loss for an answer, and counts the calls -/
def countingRadio : Radio Unit Nat := fun c => do
  modify (· + 1)
  return match c with
    | .startTransmit _ => .ok ()
    | .checkTransmit => .ok true
    | .startReceive => .ok ()
    | .checkReceive _ => .ok true
    | .getReceived => .ok .sample
    | .delayNs _ => ()
    | .delayUs _ => ()

/-- a downlink that is rejected, one that is sent, and an uplink -/
def threeOperations : List Operation :=
  [.forward .precedence .null, .forward .precedence (.ofMembers (Downlink.briefRequest "FSK" (.int 50000))),
    .collect true]

/-- of these, one asks nothing, one makes one call and one makes two -/
theorem countingRadio_served : ∃ es rs, ServesAll threeOperations es rs ∧ countingRadio.Answers 0 es 3 ∧
    Faithful threeOperations es rs ∧ ∃ e, AsksNothing .precedence .null e := by
  have hcount : ((session threeOperations).holdWith countingRadio 0).2 = 3 := by decide +kernel
  obtain ⟨es, hserves, hanswers⟩ := ((session_served threeOperations).2.1 _ countingRadio 0 3 _).1 (Prod.ext rfl hcount)
  have hrejected : (Downlink.decode .precedence .null).toOption = none := by decide +kernel
  cases hdecode : Downlink.decode .precedence .null with
  | ok p =>
    rw [hdecode] at hrejected
    cases hrejected
  | error e =>
    have hserved := @session_served Unit threeOperations
    exact ⟨es, _, hserves, hanswers, hserved.2.2.1 es _ hserves, e, hserved.2.2.2 _ _ e hdecode⟩

end PacketForwarder.Forwarding
