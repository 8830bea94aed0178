/-
Decoding a text and decoding the value that it spells. The text is read into a request field by field as it stands; the
value has lost the order of its members and all but the last of repeated keys. For every text that spells a value the
two give the same packet or the same error, but that two malformed requests may differ in the fault that is reported
first; only where the object repeats one of the fourteen names is the text refused though the value may be accepted.
-/
import PacketForwarder.Downlink.Decode
import PacketForwarder.Proofs.Downlink.Request
import PacketForwarder.Proofs.Json.Readings

namespace PacketForwarder

open Json

variable {text : Bytes} {v : Json}

/-- the root object of a text repeats the name of a field -/
def Request.RepeatsField (text : Bytes) : Prop :=
  ∃ k : Request.Key, 2 ≤ (names (rootMembers text)).count k.name

theorem Request.distinct_iff_not_repeats : Request.schema.Distinct (rootMembers text) ↔ ¬Request.RepeatsField text := by
  rw [Request.singleNames.distinct_iff, Request.RepeatsField, not_exists]
  exact forall_congr' fun k => Nat.not_lt.symm

/-- a text that spells a value holds a request exactly if the value does and no field is repeated -/
theorem Request.ofText_eq_ok_iff (h : Json.parse text = .ok v) {r : Request} :
    Request.ofText text = .ok r ↔ ¬Request.RepeatsField text ∧ Request.ofJson v = .ok r := by
  unfold Request.ofText Request.ofJson
  rw [Outcome.map_eq_ok, Outcome.map_eq_ok, ← Request.distinct_iff_not_repeats]
  apply Iff.intro
  · intro h'
    obtain ⟨rec, hrec, rfl⟩ := h'
    obtain ⟨hdistinct, hvalue⟩ := (Schema.ofText_eq_ok_iff Request.unchosen h).1 hrec
    exact ⟨hdistinct, rec, hvalue, rfl⟩
  · intro h'
    obtain ⟨hdistinct, rec, hvalue, rfl⟩ := h'
    exact ⟨rec, (Schema.ofText_eq_ok_iff Request.unchosen h).2 ⟨hdistinct, hvalue⟩, rfl⟩

namespace Downlink

/-- the same packet or the same error, where any two malformed requests count as one -/
def SameAnswer (a b : Except DecodeError TransmitPacket) : Prop :=
  a = b ∨ ∃ f g, a = .error (.malformed f) ∧ b = .error (.malformed g)

theorem malformed_of_error {x : Except Fault Request} (policy : SchedulePolicy) (hx : ∀ r, x ≠ .ok r) :
    ∃ f, (x.mapError DecodeError.malformed >>= Request.decode policy) = .error (.malformed f) := by
  cases x with
  | ok r => exact absurd rfl (hx r)
  | error f => exact ⟨f, rfl⟩

theorem sameAnswer_of_iff {x y : Except Fault Request} {policy : SchedulePolicy} (h : ∀ r, x = .ok r ↔ y = .ok r) :
    SameAnswer (x.mapError .malformed >>= Request.decode policy) (y.mapError .malformed >>= Request.decode policy) := by
  by_cases hx : ∃ r, x = .ok r
  · obtain ⟨r, rfl⟩ := hx
    rw [(h r).1 rfl]
    exact Or.inl rfl
  · have hx' : ∀ r, x ≠ .ok r := fun r hr => hx ⟨r, hr⟩
    obtain ⟨f, hf⟩ := malformed_of_error policy hx'
    obtain ⟨g, hg⟩ := malformed_of_error policy fun r hr => hx' r ((h r).2 hr)
    exact Or.inr ⟨f, g, hf, hg⟩

/-- **The text and its value are decoded alike**, unless the text repeats a field. -/
theorem decodeText_agrees (h : Json.parse text = .ok v) :
    (¬Request.RepeatsField text → SameAnswer (decodeText text) (decode .precedence v)) ∧
    (Request.RepeatsField text → ∃ f, decodeText text = .error (.malformed f)) := by
  refine ⟨?_, ?_⟩
  · intro hdistinct
    refine sameAnswer_of_iff fun r => ?_
    rw [Request.ofText_eq_ok_iff h, and_iff_right hdistinct]
  · intro hrepeats
    refine malformed_of_error .precedence fun r hr => ?_
    exact ((Request.ofText_eq_ok_iff h).1 hr).1 hrepeats

/-- a request by text -/
def plainRequest : Bytes :=
  bytesOf "\x7b\"freq\":868,\"rfch\":0,\"modu\":\"FSK\",\"datr\":50000,\"data\":\"\"\x7d"

/-- the same request, with another modulation before its own -/
def doubleRequest : Bytes :=
  bytesOf "\x7b\"modu\":\"LORA\",\"freq\":868,\"rfch\":0,\"modu\":\"FSK\",\"datr\":50000,\"data\":\"\"\x7d"

theorem decode_of_isSome (text : Bytes)
    (h : ((Json.parse text).toOption.bind fun v => (decode .precedence v).toOption).isSome = true) :
    ∃ v p, Json.parse text = .ok v ∧ decode .precedence v = .ok p := by
  obtain ⟨p, hp⟩ := Option.isSome_iff_exists.1 h
  obtain ⟨v, hv, hdecode⟩ := Option.bind_eq_some_iff.1 hp
  exact ⟨v, p, Outcome.toOption_eq_some.1 hv, Outcome.toOption_eq_some.1 hdecode⟩

/-- A text without repeated names is decoded like its value. With two modulations the value, which keeps the last one,
is decoded still, and the text is refused. -/
theorem decodeText_twoModulations :
    (∃ v p, Json.parse plainRequest = .ok v ∧ ¬Request.RepeatsField plainRequest ∧
      decode .precedence v = .ok p ∧ decodeText plainRequest = .ok p) ∧
    ∃ v p f, Json.parse doubleRequest = .ok v ∧ Request.RepeatsField doubleRequest ∧
      decode .precedence v = .ok p ∧ decodeText doubleRequest = .error (.malformed f) := by
  have hnames : names (rootMembers plainRequest) = ["freq", "rfch", "modu", "datr", "data"] := by decide +kernel
  have hnames' : names (rootMembers doubleRequest) = ["modu", "freq", "rfch", "modu", "datr", "data"] := by
    decide +kernel
  have hdistinct : ¬Request.RepeatsField plainRequest := by
    rintro ⟨k, hk⟩
    rw [hnames] at hk
    cases k <;> exact absurd hk (by decide)
  have hrepeats : Request.RepeatsField doubleRequest := by
    refine ⟨.modu, ?_⟩
    rw [hnames']
    decide
  obtain ⟨v, p, hparse, hdecode⟩ := decode_of_isSome plainRequest (by decide +kernel)
  obtain ⟨v', p', hparse', hdecode'⟩ := decode_of_isSome doubleRequest (by decide +kernel)
  obtain ⟨f, hrefused⟩ := (decodeText_agrees hparse').2 hrepeats
  refine ⟨⟨v, p, hparse, hdistinct, hdecode, ?_⟩, v', p', f, hparse', hrepeats, hdecode', hrefused⟩
  have hsame := (decodeText_agrees hparse).1 hdistinct
  rw [hdecode] at hsame
  rcases hsame with heq | ⟨f, g, -, hg⟩
  · exact heq
  · cases hg

end Downlink

end PacketForwarder
