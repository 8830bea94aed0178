/-
Base64 in the standard alphabet. `Base64.encode` writes three bytes as four symbols and fills the last
group with `=`. `Base64.decode` accepts exactly what `encode` writes: the padding has to be complete and
the unused bits of the last symbol have to be zero; anything else is refused with the first fault.
-/

namespace PacketForwarder

/-- why a text is not the base64 form of any bytes -/
inductive Base64.Fault where
  | symbol (byte : UInt8) (offset : Nat)
  | lastSymbol (byte : UInt8) (offset : Nat)
  | length (count : Nat)
  | padding
  deriving DecidableEq

namespace Base64

/-- the text of the fault -/
def Fault.message : Fault → String
  | .symbol b i => s!"Invalid symbol {b.toNat}, offset {i}."
  | .lastSymbol b i => s!"Invalid last symbol {b.toNat}, offset {i}."
  | .length n => s!"Invalid input length: {n}"
  | .padding => "Invalid padding"

/-- the byte that fills the last group -/
def pad : UInt8 := 61

/-- the byte for six bits -/
def symbol (v : Nat) : UInt8 :=
  if v < 26 then .ofNat (65 + v)
  else if v < 52 then .ofNat (97 + (v - 26))
  else if v < 62 then .ofNat (48 + (v - 52))
  else if v = 62 then 43 else 47

/-- the six bits of a byte of the alphabet -/
def sextet? (b : UInt8) : Option Nat :=
  if 65 ≤ b ∧ b ≤ 90 then some (b.toNat - 65)
  else if 97 ≤ b ∧ b ≤ 122 then some (b.toNat - 97 + 26)
  else if 48 ≤ b ∧ b ≤ 57 then some (b.toNat - 48 + 52)
  else if b = 43 then some 62
  else if b = 47 then some 63
  else none

/-- the symbols for bytes, three at a time -/
def encodeBytes : List UInt8 → List UInt8
  | [] => []
  | [a] => [symbol (a.toNat / 4), symbol (a.toNat % 4 * 16), pad, pad]
  | [a, b] =>
    [symbol (a.toNat / 4), symbol (a.toNat % 4 * 16 + b.toNat / 16), symbol (b.toNat % 16 * 4), pad]
  | a :: b :: c :: rest =>
    symbol (a.toNat / 4) :: symbol (a.toNat % 4 * 16 + b.toNat / 16) ::
      symbol (b.toNat % 16 * 4 + c.toNat / 64) :: symbol (c.toNat % 64) :: encodeBytes rest

/-- the base64 text of bytes -/
def encode (bytes : List UInt8) : String :=
  String.ofList ((encodeBytes bytes).map fun b => Char.ofNat b.toNat)

/-- the six bits of the byte at an offset -/
def sextetAt (offset : Nat) (b : UInt8) : Except Fault Nat :=
  match sextet? b with
  | some v => .ok v
  | none => .error (.symbol b offset)

/-- The symbols of the last group and the count of `=` after them. A `=` may stand at the third place or
later, and only others may follow it. -/
def lastSymbols (offset place : Nat) : List UInt8 → Except Fault (List Nat × Nat)
  | [] => .ok ([], 0)
  | b :: rest =>
    if b = pad then
      if 2 ≤ place ∧ rest.all (· = pad) then .ok ([], rest.length + 1)
      else .error (.symbol pad (offset + place))
    else do
      let v ← sextetAt (offset + place) b
      let (vs, pads) ← lastSymbols offset (place + 1) rest
      .ok (v :: vs, pads)

/-- the bytes of the last group, which is complete with its padding -/
def lastBytes (offset : Nat) : List Nat → Except Fault (List UInt8)
  | [v, w] =>
    if w % 16 = 0 then .ok [.ofNat (v * 4 + w / 16)]
    else .error (.lastSymbol (symbol w) (offset + 1))
  | [v, w, x] =>
    if x % 4 = 0 then .ok [.ofNat (v * 4 + w / 16), .ofNat (w % 16 * 16 + x / 4)]
    else .error (.lastSymbol (symbol x) (offset + 2))
  | [v, w, x, y] =>
    .ok [.ofNat (v * 4 + w / 16), .ofNat (w % 16 * 16 + x / 4), .ofNat (x % 4 * 64 + y)]
  | _ => .ok []

/-- the last group, of at most four bytes, which begins at an offset -/
def decodeLast (offset : Nat) (group : List UInt8) : Except Fault (List UInt8) := do
  let (vs, pads) ← lastSymbols offset 0 group
  if vs.length = 1 then .error (.length (offset + 1))
  else if (vs.length + pads) % 4 ≠ 0 then .error .padding
  else lastBytes offset vs

/-- groups of four from the left; the last one may be shorter or padded -/
def decodeGroups (offset : Nat) : List UInt8 → Except Fault (List UInt8)
  | a :: b :: c :: d :: e :: rest => do
    let v ← sextetAt offset a
    let w ← sextetAt (offset + 1) b
    let x ← sextetAt (offset + 2) c
    let y ← sextetAt (offset + 3) d
    let bytes ← decodeGroups (offset + 4) (e :: rest)
    .ok (.ofNat (v * 4 + w / 16) :: .ofNat (w % 16 * 16 + x / 4) :: .ofNat (x % 4 * 64 + y) :: bytes)
  | group => decodeLast offset group

/-- The bytes of a text. A single byte left over after the groups of four is looked at first: where it is
no symbol and no padding, it is the fault. -/
def decode (text : List UInt8) : Except Fault (List UInt8) :=
  let strayEnd := text.getLast?.filter fun b =>
    text.length % 4 = 1 && b != pad && (sextet? b).isNone
  match strayEnd with
  | some b => .error (.symbol b (text.length - 1))
  | none => decodeGroups 0 text

end Base64

end PacketForwarder
