/-
What an error shows of the wire. `ShowsWire` says that each value in an error is the one that the object has there,
where the datarate of a wrong type may have been changed by `shown`.

Results:
- `error_shows`: every error shows the wire, but a datarate that is an integer is shown as a double. These are the only
  errors that do not show what the wire has, and up to `2 ^ 53` it is still the same number.
- `wideInteger_rounded`: beyond that it is another number.
-/
import PacketForwarder.Proofs.Downlink.FirstFailure

namespace PacketForwarder

open Json Request

namespace Json

/-- an integer becomes the double nearest to it -/
def asDouble : Json → Json
  | .int n => .ofDouble (.ofInt .double n)
  | v => v

theorem ofDouble_ne_int {x : Double} {n : Int} : ofDouble x ≠ .int n := by
  cases x <;> exact nofun

/-- nothing but an integer is changed -/
theorem asDouble_eq_self {v : Json} : asDouble v = v ↔ ∀ n, v ≠ .int n := by
  cases v with
  | int n => exact iff_of_false ofDouble_ne_int fun h => h n rfl
  | null | bool | float | str | arr | obj => simp [asDouble]

theorem asDouble_exact {n : Int} (h : n.natAbs < 2 ^ 53) : ∃ x, asDouble (.int n) = .float x ∧ x.value = n := by
  obtain ⟨x, hx, hvalue⟩ := Binary.ofInt_exact h
  exact ⟨x, congrArg ofDouble hx, hvalue⟩

end Json

theorem WireDatarate.toJson_ofJson (v : Json) : (ofJson v).toJson = v.asDouble := by
  cases v <;> rfl

namespace Downlink

variable {v : Json} {r : Request} {policy : SchedulePolicy} {e : DecodeError} {ms : List (String × Json)}

/-- **The values in an error are those of the wire**, a datarate of a wrong type as it is shown. One that is left out
counts as null, and a coding rate that is left out as the empty text. -/
def ShowsWire (shown : Json → Json) (v : Json) : DecodeError → Prop
  | .malformed _ => True
  | .schedule found => found = fieldsSet v
  | .unknownModulation modu => v.get? "modu" = some (.str modu)
  | .datarateType _ datr => datr = shown ((v.get? "datr").getD .null)
  | .datarateFormat datr => v.get? "datr" = some (.str datr)
  | .unknownBandwidth datr khz => v.get? "datr" = some (.str datr) ∧ ∃ factor f, Datarate.HasForm datr factor khz f
  | .unknownCodingRate codr => LeftOutOr (v.get? "codr") (codr = "") (.str codr)
  | .payload data _ => v.get? "data" = some (.str data)

theorem shows_of_refused (hv : Holds v r) (h : Request.Refused policy r e) : ShowsWire asDouble v e := by
  have hdatr : r.datr.toJson = asDouble ((v.get? "datr").getD .null) := by
    rw [hv.datr, WireDatarate.toJson_ofJson]
  cases h with
  | schedule => exact scheduleFields_eq hv
  | unknownModulation => exact hv.modu
  | lora _ _ h =>
    cases h with
    | datarateType => exact hdatr
    | datarateFormat hword => exact (datr_text_iff hv).1 hword
    | unknownBandwidth hword hparse => exact ⟨(datr_text_iff hv).1 hword, (Datarate.parse_eq_bandwidth_iff.1 hparse).1⟩
    | unknownCodingRate => exact hv.codr
  | fsk => exact hdatr
  | payload => exact hv.data

theorem shows_of_error (h : decode policy (.obj ms) = .error e) : ShowsWire asDouble (.obj ms) e := by
  rcases decode_eq_error h with ⟨fault, -, rfl⟩ | ⟨r, hr, h⟩
  · trivial
  · exact shows_of_refused (holds_of_ofJson hr) h

/-- an integer is of the wrong type for LoRa alone -/
theorem integer_lora {m : Modulation} {n : Int} (hfirst : FailsFirst policy v (.datarateType m))
    (hn : v.get? "datr" = some (.int n)) : m = .lora := by
  cases m with
  | lora => rfl
  | fsk => exact absurd ⟨_, hn, Or.inl ⟨n, rfl⟩⟩ hfirst.1.2

/-- nothing but an integer is shown as what it is not -/
theorem shows_unchanged_iff (hfirst : FailsFirst policy v e.check) (hshows : ShowsWire asDouble v e) :
    ShowsWire id v e ↔ ¬∃ datr n, e = .datarateType .lora datr ∧ v.get? "datr" = some (.int n) := by
  cases e with
  | datarateType m datr =>
    have hdatr : datr = asDouble ((v.get? "datr").getD .null) := hshows
    change datr = (v.get? "datr").getD .null ↔ _
    rw [hdatr, asDouble_eq_self]
    apply Iff.intro
    · rintro hno ⟨_, n, -, hn⟩
      exact hno n (by rw [hn, Option.getD_some])
    · intro hno n hn
      have hgiven : v.get? "datr" = some (.int n) := by
        cases hget : v.get? "datr" with
        | none => simp [hget] at hn
        | some w => simpa [hget] using hn
      obtain rfl := integer_lora hfirst hgiven
      exact hno ⟨_, n, rfl, hgiven⟩
  | malformed | schedule | unknownModulation | datarateFormat | unknownBandwidth | unknownCodingRate | payload =>
    refine iff_of_true hshows ?_
    rintro ⟨_, _, h, -⟩
    cases h

/-- **Errors show the wire, but for the type of an integer.** A datarate of a wrong type that is an integer is shown as
the double nearest to it; every other value in an error is the one that the object has. -/
theorem error_shows {policy : SchedulePolicy} {ms : List (String × Json)} {e : DecodeError}
    (h : decode policy (.ofMembers ms) = .error e) :
    ShowsWire asDouble (.ofMembers ms) e ∧
    (ShowsWire id (.ofMembers ms) e ↔
      ¬∃ datr n, e = .datarateType .lora datr ∧ (Json.ofMembers ms).get? "datr" = some (.int n)) ∧
    ∀ datr n, e = .datarateType .lora datr → (Json.ofMembers ms).get? "datr" = some (.int n) → n.natAbs < 2 ^ 53 →
      ∃ x, datr = .float x ∧ x.value = n := by
  rw [ofMembers_eq] at h ⊢
  have hshows := shows_of_error h
  refine ⟨hshows, shows_unchanged_iff (failsFirst_of_error (sortMembers_sorted ms).nodup h) hshows, ?_⟩
  rintro datr n rfl hn hlt
  have hdatr : datr = asDouble (((Json.obj (sortMembers ms)).get? "datr").getD .null) := hshows
  obtain ⟨x, hx, hvalue⟩ := asDouble_exact hlt
  exact ⟨x, by rw [hdatr, hn, Option.getD_some, hx], hvalue⟩

def numberedRequest (n : Int) : List (String × Json) := briefRequest "LORA" (.int n)

/-- `2 ^ 53` as a double -/
def wideDouble : BinaryNumber .double := ⟨false, 4503599627370496, 1, by decide⟩

/-- seven is shown as a float with its value, and the integer after `2 ^ 53` as the one before it -/
theorem wideInteger_rounded :
    (∃ x, decode .precedence (.ofMembers (numberedRequest 7)) = .error (.datarateType .lora (.float x)) ∧
      x.value = (7 : Int)) ∧
    decode .precedence (.ofMembers (numberedRequest 9007199254740993)) =
      .error (.datarateType .lora (.float wideDouble)) ∧
    ¬ShowsWire id (.ofMembers (numberedRequest 9007199254740993)) (.datarateType .lora (.float wideDouble)) := by
  have hseven : decode .precedence (.ofMembers (numberedRequest 7)) =
      .error (.datarateType .lora (asDouble (.int 7))) := by rfl
  have hwide : decode .precedence (.ofMembers (numberedRequest 9007199254740993)) =
      .error (.datarateType .lora (.float wideDouble)) := by rfl
  refine ⟨?_, hwide, fun hshows => (error_shows hwide).2.1.1 hshows ⟨_, _, rfl, by rfl⟩⟩
  obtain ⟨x, hx, hvalue⟩ := (error_shows hseven).2.2 _ 7 rfl (by rfl) (by decide)
  exact ⟨x, by rw [hseven, hx], hvalue⟩

end Downlink

end PacketForwarder
