/-
The datarate of a LoRa packet in one word: `SF`, the spreading factor, `BW`, and the bandwidth in
kilohertz. The fraction of the bandwidth may be left out, but if it is there it has to be the right one.
`Datarate.text` is the spelling that is written.
-/
import PacketForwarder.Modulation.Bandwidth
import PacketForwarder.Number.Decimal

namespace PacketForwarder

/-- spreading factor and bandwidth of a LoRa packet -/
structure Datarate where
  spreadingFactor : UInt32
  bandwidth : Bandwidth
  deriving DecidableEq

namespace Datarate

/-- why a word is no datarate -/
inductive Fault where
  | format
  /-- no bandwidth has these whole kilohertz -/
  | bandwidth (khz : Nat)
  deriving DecidableEq

/-- the largest number that the digits of a datarate may spell -/
def maxNumber : Nat := 4294967295

/-- a number at the front of a text, and the rest -/
def number? (cs : List Char) : Option (Nat × List Char) :=
  let (ds, rest) := Decimal.spanDigits cs
  (Decimal.natUpTo? maxNumber ds).map (·, rest)

/-- nothing, or a point and the digits of a number, to the end of the text -/
def fraction? : List Char → Option (List Char)
  | [] => some []
  | '.' :: ds => (Decimal.natUpTo? maxNumber ds).map fun _ => '.' :: ds
  | _ => none

/-- `SF`, a number, `BW`, a number and perhaps a fraction -/
def parts? (cs : List Char) : Option (Nat × Nat × List Char) :=
  match cs with
  | 'S' :: 'F' :: cs =>
    match number? cs with
    | some (factor, 'B' :: 'W' :: cs) =>
      match number? cs with
      | some (khz, cs) => (fraction? cs).map fun fraction => (factor, khz, fraction)
      | none => none
    | _ => none
  | _ => none

/-- the datarate that a word spells -/
def parse (word : String) : Except Fault Datarate :=
  match parts? word.toList with
  | none => .error .format
  | some (factor, khz, fraction) =>
    match Bandwidth.ofWholeKhz? khz with
    | none => .error (.bandwidth khz)
    | some b =>
      if fraction = [] ∨ toString khz ++ String.ofList fraction = b.label then
        .ok ⟨.ofNat factor, b⟩
      else .error .format

/-- the spelling of a datarate -/
def text (d : Datarate) : String := s!"SF{d.spreadingFactor.toNat}" ++ d.bandwidth.datarateLabel

end Datarate

end PacketForwarder
