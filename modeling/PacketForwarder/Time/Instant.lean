/-
Instants in Coordinated Universal Time and their texts. An instant counts seconds from 1970 and holds
nanoseconds, which may run on for a second more. After the last second of a minute this is how a leap
second is held; after any other it is the next second. `ofParts?` makes no instants of the second kind.
-/
import PacketForwarder.Number.Fixed
import PacketForwarder.Number.Decimal
import PacketForwarder.Time.Date

namespace PacketForwarder

namespace Instant

/-- the first second of the calendar in use -/
def minSeconds : Int := -8334601228800

/-- the last second of the calendar in use -/
def maxSeconds : Int := 8210266876799

/-- nanoseconds of a second -/
def nanosPerSecond : Nat := 1000000000

/-- the seconds are in the calendar, and the nanoseconds in their second or in the one after it -/
def Valid (seconds : Int) (nanos : Nat) : Prop :=
  minSeconds ≤ seconds ∧ seconds ≤ maxSeconds ∧ nanos < 2 * nanosPerSecond

instance (seconds : Int) (nanos : Nat) : Decidable (Valid seconds nanos) := by
  unfold Valid; infer_instance

end Instant

/-- an instant -/
structure Instant where
  seconds : Int
  nanos : Nat
  valid : Instant.Valid seconds nanos
  deriving DecidableEq

namespace Instant

/-- The instant with these counts, if the calendar has the second. Nanoseconds run on for a leap second
alone. -/
def ofParts? (seconds : Int) (nanos : Nat) : Option Instant :=
  if h : Valid seconds nanos ∧ (nanos < nanosPerSecond ∨ seconds % 60 = 59) then some ⟨seconds, nanos, h.1⟩
  else none

def secondsPerDay : Int := 86400

/-- the day of the instant -/
def date (t : Instant) : Date := .ofDays (t.seconds / secondsPerDay)

/-- Hour, minute and second. Nanoseconds that run on are counted in, and the second is 60 in a leap second. -/
def clock (t : Instant) : Nat × Nat × Nat :=
  let s := (t.seconds % secondsPerDay).toNat
  (s / 3600, s / 60 % 60, s % 60 + t.nanos / nanosPerSecond)

/-- nanoseconds within the second that `clock` shows -/
def subsecond (t : Instant) : Nat := t.nanos % nanosPerSecond

/-- A year has four digits; outside 0000 to 9999 a sign and as many digits as it needs, at least four. -/
def yearText (year : Int) : String :=
  let digits := zeroPadded 4 year.natAbs
  if 0 ≤ year ∧ year ≤ 9999 then digits else (if year < 0 then "-" else "+") ++ digits

/-- date and time to the second, the fraction given as text, and `Z` -/
def textWith (fraction : String) (t : Instant) : String :=
  let (hour, minute, second) := t.clock
  yearText t.date.year ++ "-" ++ zeroPadded 2 t.date.month ++ "-" ++ zeroPadded 2 t.date.day ++ "T" ++
    zeroPadded 2 hour ++ ":" ++ zeroPadded 2 minute ++ ":" ++ zeroPadded 2 second ++ fraction ++ "Z"

/-- the text with whole seconds; the fraction is dropped -/
def toSecondsText (t : Instant) : String := t.textWith ""

/-- the text with milliseconds -/
def toMillisText (t : Instant) : String := t.textWith ("." ++ zeroPadded 3 (t.subsecond / 1000000))

/-- the text with as many digits, in groups of three, as the fraction needs -/
def toExactText (t : Instant) : String :=
  let n := t.subsecond
  t.textWith <|
    if n = 0 then ""
    else if n % 1000000 = 0 then "." ++ zeroPadded 3 (n / 1000000)
    else if n % 1000 = 0 then "." ++ zeroPadded 6 (n / 1000)
    else "." ++ zeroPadded 9 n

/-- a number of two digits -/
def twoDigits? (a b : Char) : Option Nat :=
  if a.isDigit && b.isDigit then some (Decimal.ofDigits [a, b]) else none

/-- the longer spelling of the zone; the shorter one is `Z` -/
def zeroOffset : List Char := "+00:00".toList

/-- does a text end with the zone, in either spelling? -/
def endsInZone (cs : List Char) : Bool := cs.getLast? = some 'Z' || zeroOffset.isSuffixOf cs

/-- Nanoseconds of what follows the seconds of a time: a fraction, of which nine digits count, and the
zone. The text has to end with a zone. Before its end a zone is known by its beginning and by its room:
after a fraction a `+` takes six bytes and a `Z` one, and without a fraction a `Z` takes up to six. -/
def fraction? (cs : List Char) : Option Nat :=
  if !endsInZone cs then none
  else match cs with
    | '.' :: rest =>
      let (ds, zone) := Decimal.spanDigits rest
      if zone = ['Z'] ∨ (zone.head? = some '+' ∧ (String.ofList zone).utf8ByteSize = zeroOffset.length) then
        some (Decimal.ofDigits ((ds ++ List.replicate 9 '0').take 9))
      else none
    | 'Z' :: _ => if (String.ofList cs).utf8ByteSize ≤ zeroOffset.length then some 0 else none
    | _ => if cs = zeroOffset then some 0 else none

/-- A time `YYYY-MM-DDThh:mm:ss`, from 1970 on, with an optional fraction and the zone, `Z` or
`+00:00`. A second 60 is read as the second before it. -/
def ofText? (text : String) : Option Instant :=
  match text.toList with
  | y₁ :: y₂ :: y₃ :: y₄ :: '-' :: m₁ :: m₂ :: '-' :: d₁ :: d₂ :: 'T' :: h₁ :: h₂ :: ':' :: n₁ :: n₂ ::
      ':' :: s₁ :: s₂ :: rest => do
    let century ← twoDigits? y₁ y₂
    let year ← twoDigits? y₃ y₄
    let month ← twoDigits? m₁ m₂
    let day ← twoDigits? d₁ d₂
    let hour ← twoDigits? h₁ h₂
    let minute ← twoDigits? n₁ n₂
    let second ← twoDigits? s₁ s₂
    let nanos ← fraction? rest
    let date : Date := ⟨century * 100 + year, month, day⟩
    if date.year < 1970 ∨ 23 < hour ∨ 59 < minute ∨ 60 < second ∨ !date.isValid then none
    else ofParts? (date.toDays * secondsPerDay + hour * 3600 + minute * 60 + min second 59) nanos
  | _ => none

end Instant

end PacketForwarder
