/-
Numbers as they are written, and how they are read. A `Numeral` is a sign, digits without zeros in front, perhaps a
point with more digits and perhaps an exponent, and `Numeral.value` is the number that it writes. The readers take all
of a numeral if nothing behind it could go on with it (`EndsNumber`): `gives_head_numeral` says what they make of its
parts.

A numeral of moderate size is read as the double nearest to its value, whether its parts make an integer or a float
(`Numeral.toDouble?_nearest`).
-/
import PacketForwarder.Proofs.Json.Skipping
import PacketForwarder.Proofs.Number.Fixed

namespace PacketForwarder.Json

/-! ## Grammar -/

structure Exponent where
  capital : Bool
  /-- a plus or a minus, or none of them -/
  sign : Option Bool
  digits : List Char
  nonempty : digits ≠ []
  isDigits : ∀ c ∈ digits, c.isDigit = true

namespace Exponent

/-- the sign as it is written; `true` is the minus -/
def signChars : Option Bool → List Char
  | none => []
  | some negative => [if negative then '-' else '+']

def chars (e : Exponent) : List Char := (if e.capital then 'E' else 'e') :: (signChars e.sign ++ e.digits)

def value (e : Exponent) : Int :=
  if e.sign = some true then -(Decimal.ofDigits e.digits : Int) else Decimal.ofDigits e.digits

end Exponent

theorem wholeDigits_toDigits (n : Nat) : Reader.WholeDigits (Nat.toDigits 10 n) := by
  refine ⟨Nat.toDigits_ne_nil, fun ⟨hzero, hlen⟩ => ?_⟩
  rw [length_toDigits_of_head_zero hzero] at hlen
  exact absurd hlen (lt_irrefl 1)

/-- a number as it is written -/
structure Numeral where
  negative : Bool
  whole : List Char
  fraction : Option (List Char)
  exponent : Option Exponent
  isDigits : ∀ c ∈ whole, c.isDigit = true
  isWhole : Reader.WholeDigits whole
  isFraction : IsFraction fraction

namespace Numeral

def chars (l : Numeral) : List Char :=
  (if l.negative then ['-'] else []) ++ l.whole ++ (l.fraction.elim [] fun ds => '.' :: ds) ++
    l.exponent.elim [] Exponent.chars

def bytes (l : Numeral) : Bytes := l.chars.map Char.toUInt8

/-- the power of ten that the digits are counted in -/
def scale (l : Numeral) : Int := (l.exponent.elim 0 Exponent.value) - (l.fraction.getD []).length

/-- the digits on both sides of the point, as one number -/
def digits (l : Numeral) : Nat := Decimal.ofDigits (l.whole ++ l.fraction.getD [])

/-- the number that is written, without its sign -/
def magnitude (l : Numeral) : ℚ := l.digits * (10 : ℚ) ^ l.scale

/-- the number that is written -/
def value (l : Numeral) : ℚ := (if l.negative then -1 else 1) * l.magnitude

theorem magnitude_nonneg (l : Numeral) : 0 ≤ l.magnitude := by
  unfold magnitude
  positivity

def plain (negative : Bool) (n : Nat) (fraction : Option (List Char)) (h : IsFraction fraction) : Numeral where
  negative
  whole := Nat.toDigits 10 n
  fraction
  exponent := none
  isDigits _ hc := isDigit_of_mem_toDigits hc
  isWhole := wholeDigits_toDigits n
  isFraction := h

@[simp]
theorem plain_chars {negative : Bool} {n : Nat} {fraction : Option (List Char)} (h : IsFraction fraction) :
    (plain negative n fraction h).chars = numberChars negative n fraction := by
  cases negative <;> simp [plain, chars, numberChars]

/-- what the parts of a numeral spell, if that is a finite number -/
def head? (l : Numeral) : Option Head :=
  Reader.numberHead? l.negative l.whole l.fraction (l.exponent.map Exponent.value)

end Numeral

namespace Reader

variable {rest tail : Bytes} {ds : List Char} {l : Numeral} {h : Head}

/-! ## The parts of a numeral -/

theorem ascii_of_isDigit {c : Char} (h : c.isDigit = true) : c.toNat < 128 := (plain_of_isDigit h).ascii

theorem isDigit_toUInt8 {c : Char} (h : c.isDigit = true) : isDigit c.toUInt8 = true := by
  have hrange : 48 ≤ c.toNat ∧ c.toNat ≤ 57 := by
    simpa [Char.isDigit, UInt32.le_iff_toNat_le] using h
  unfold isDigit
  rw [Bool.and_eq_true, decide_eq_true_iff, decide_eq_true_iff, UInt8.le_iff_toNat_le, UInt8.le_iff_toNat_le,
    toUInt8_toNat (ascii_of_isDigit h)]
  exact hrange

theorem isBlank_of_isDigit {b : UInt8} (h : isDigit b = true) : isBlank b = false := by
  by_contra hblank
  simp only [isBlank, Bool.or_eq_true, decide_eq_true_eq, Bool.not_eq_false] at hblank
  rcases hblank with ((rfl | rfl) | rfl) | rfl <;> revert h <;> decide

theorem gives_digits_written (hds : ∀ c ∈ ds, c.isDigit = true) (htail : EndsRun isDigit tail) :
    Gives digits (ds.map Char.toUInt8 ++ tail) ds tail := by
  refine gives_digits.2 ⟨ds.map Char.toUInt8, rfl, ?_, ?_, htail⟩
  · exact map_ofNat_toUInt8 fun c hc => ascii_of_isDigit (hds c hc)
  · intro b hb
    obtain ⟨c, hc, rfl⟩ := List.mem_map.1 hb
    exact isDigit_toUInt8 (hds c hc)

/-- no digit, no point and no exponent: what is behind a number does not go on with it -/
structure EndsNumber (tail : Bytes) : Prop where
  digits : EndsRun isDigit tail
  point : tail.head? ≠ some '.'.toUInt8
  exponent : ∀ b ∈ tail.head?, ¬IsExponentByte b

theorem endsNumber_nil : EndsNumber [] := ⟨endsRun_nil, nofun, nofun⟩

theorem endsNumber_cons {b : UInt8} : EndsNumber (b :: tail) ↔
    isDigit b = false ∧ b ≠ '.'.toUInt8 ∧ b ≠ 'e'.toUInt8 ∧ b ≠ 'E'.toUInt8 := by
  apply Iff.intro
  · intro h
    have hpoint : b ≠ '.'.toUInt8 := fun heq => h.point (congrArg some heq)
    obtain ⟨hsmall, hcapital⟩ := not_or.1 (h.exponent b rfl)
    exact ⟨endsRun_cons.1 h.digits, hpoint, hsmall, hcapital⟩
  · intro h
    obtain ⟨hdigit, hpoint, hsmall, hcapital⟩ := h
    refine ⟨endsRun_cons.2 hdigit, fun heq => hpoint (Option.some.inj heq), ?_⟩
    rintro b' ⟨⟩
    exact not_or.2 ⟨hsmall, hcapital⟩

def exponentBytes (e : Option Exponent) : Bytes := (e.elim [] Exponent.chars).map Char.toUInt8

def fractionBytes (fraction : Option (List Char)) : Bytes := (fraction.elim [] fun ds => '.' :: ds).map Char.toUInt8

def unsignedBytes (l : Numeral) : Bytes :=
  l.whole.map Char.toUInt8 ++ (fractionBytes l.fraction ++ exponentBytes l.exponent)

theorem bytes_eq (l : Numeral) : l.bytes = (if l.negative then ['-'.toUInt8] else []) ++ unsignedBytes l := by
  unfold Numeral.bytes Numeral.chars unsignedBytes fractionBytes exponentBytes
  split_ifs <;> simp

/-- the sign of an exponent is read off its first character, and no digit is taken for one -/
theorem sign_written (e : Exponent) (tail : Bytes) :
    afterSign ((Exponent.signChars e.sign).map Char.toUInt8 ++ (e.digits.map Char.toUInt8 ++ tail)) =
        e.digits.map Char.toUInt8 ++ tail ∧
      (((Exponent.signChars e.sign).map Char.toUInt8 ++ (e.digits.map Char.toUInt8 ++ tail)).head? = some '-'.toUInt8 ↔
        e.sign = some true) := by
  cases hsign : e.sign with
  | some negative =>
    cases negative with
    | false => exact ⟨rfl, iff_of_false (fun h => absurd (Option.some.inj h) (by decide)) nofun⟩
    | true => exact ⟨rfl, iff_of_true rfl rfl⟩
  | none =>
    obtain ⟨c, cs, hcs⟩ := List.exists_cons_of_ne_nil e.nonempty
    have hdigit := isDigit_toUInt8 (e.isDigits c (hcs ▸ List.mem_cons_self))
    have hplus : c.toUInt8 ≠ '+'.toUInt8 := ne_of_apply_ne isDigit (by rw [hdigit]; decide)
    have hminus : c.toUInt8 ≠ '-'.toUInt8 := ne_of_apply_ne isDigit (by rw [hdigit]; decide)
    simp [hcs, Exponent.signChars, afterSign, hplus, hminus]

theorem gives_exponent (e : Option Exponent) (htail : EndsNumber tail) :
    Gives exponentPart (exponentBytes e ++ tail) (e.map Exponent.value) tail := by
  cases e with
  | none => exact gives_exponentPart.2 (Or.inl ⟨rfl, rfl, htail.exponent⟩)
  | some e =>
    have hletter : IsExponentByte (if e.capital then 'E' else 'e').toUInt8 := by
      cases e.capital
      · exact Or.inl rfl
      · exact Or.inr rfl
    have hbytes : exponentBytes (some e) ++ tail = (if e.capital then 'E' else 'e').toUInt8 ::
        ((Exponent.signChars e.sign).map Char.toUInt8 ++ (e.digits.map Char.toUInt8 ++ tail)) := by
      simp [exponentBytes, Exponent.chars]
    obtain ⟨hafter, hminus⟩ := sign_written e tail
    refine gives_exponentPart.2 (Or.inr ⟨_, _, hletter, hbytes, e.digits, ?_, e.nonempty, ?_⟩)
    · rw [hafter]
      exact gives_digits_written e.isDigits htail.digits
    · simp only [hminus]
      rfl

/-- behind the digits of a fraction no point follows and no digit -/
theorem exponent_ends (e : Option Exponent) (htail : EndsNumber tail) :
    EndsRun isDigit (exponentBytes e ++ tail) ∧ (exponentBytes e ++ tail).head? ≠ some '.'.toUInt8 := by
  cases e with
  | none => exact ⟨htail.digits, htail.point⟩
  | some e =>
    have hbytes : exponentBytes (some e) ++ tail = (if e.capital then 'E' else 'e').toUInt8 ::
        ((Exponent.signChars e.sign ++ e.digits).map Char.toUInt8 ++ tail) := rfl
    rw [hbytes, endsRun_cons, List.head?_cons]
    cases e.capital <;> exact ⟨by decide, by decide⟩

theorem gives_fraction {fraction : Option (List Char)} (hfraction : IsFraction fraction) (hend : EndsRun isDigit tail)
    (hpoint : tail.head? ≠ some '.'.toUInt8) : Gives fractionDigits (fractionBytes fraction ++ tail) fraction tail := by
  cases fraction with
  | none => exact gives_fractionDigits.2 (Or.inl ⟨rfl, rfl, hpoint⟩)
  | some ds =>
    obtain ⟨hne, hds⟩ := hfraction ds rfl
    exact gives_fractionDigits.2 (Or.inr ⟨_, ds, rfl, gives_digits_written hds hend, hne, rfl⟩)

theorem fraction_ends (fraction : Option (List Char)) (hend : EndsRun isDigit tail) :
    EndsRun isDigit (fractionBytes fraction ++ tail) := by
  cases fraction with
  | none => exact hend
  | some ds =>
    have hbytes : fractionBytes (some ds) ++ tail = '.'.toUInt8 :: (ds.map Char.toUInt8 ++ tail) := rfl
    rw [hbytes, endsRun_cons]
    decide

theorem gives_parts (l : Numeral) (htail : EndsNumber tail) : ∃ t t',
    Gives wholeDigits (unsignedBytes l ++ tail) l.whole t ∧ Gives fractionDigits t l.fraction t' ∧
      Gives exponentPart t' (l.exponent.map Exponent.value) tail := by
  obtain ⟨hend, hpoint⟩ := exponent_ends l.exponent htail
  refine ⟨fractionBytes l.fraction ++ (exponentBytes l.exponent ++ tail), exponentBytes l.exponent ++ tail,
    gives_wholeDigits.2 ⟨?_, l.isWhole⟩, gives_fraction l.isFraction hend hpoint, gives_exponent l.exponent htail⟩
  simpa [unsignedBytes] using gives_digits_written l.isDigits (fraction_ends l.fraction hend)

/-! ## Numerals -/

/-- a numeral begins with its sign or with a digit -/
theorem shows_numeral (l : Numeral) (tail : Bytes) :
    (l.negative = true ∧ Shows (l.bytes ++ tail) '-' (unsignedBytes l ++ tail)) ∨
    (l.negative = false ∧ ∃ c t, c.isDigit = true ∧ l.bytes ++ tail = c.toUInt8 :: t ∧
      unsignedBytes l ++ tail = c.toUInt8 :: t ∧ Shows (c.toUInt8 :: t) c t) := by
  cases hsign : l.negative with
  | true =>
    have hbytes : l.bytes ++ tail = '-'.toUInt8 :: (unsignedBytes l ++ tail) := by simp [bytes_eq, hsign]
    rw [hbytes]
    exact Or.inl ⟨rfl, shows_cons (by decide) (by decide)⟩
  | false =>
    have hbytes : l.bytes = unsignedBytes l := by simp [bytes_eq, hsign]
    obtain ⟨c, cs, hcs⟩ := List.exists_cons_of_ne_nil l.isWhole.1
    have hc : c.isDigit = true := l.isDigits c (hcs ▸ List.mem_cons_self)
    have hlt := ascii_of_isDigit hc
    have hunsigned : unsignedBytes l ++ tail = c.toUInt8 ::
        (cs.map Char.toUInt8 ++ (fractionBytes l.fraction ++ exponentBytes l.exponent) ++ tail) := by
      simp [unsignedBytes, hcs]
    rw [hbytes]
    exact Or.inr ⟨rfl, c, _, hc, hunsigned, hunsigned,
      shows_cons (by omega) (isBlank_of_isDigit (isDigit_toUInt8 hc))⟩

/-- **A numeral is read as what its parts spell**, and not at all where they spell nothing. -/
theorem gives_head_numeral (htail : EndsNumber tail) :
    Gives head (l.bytes ++ tail) h rest ↔ l.head? = some h ∧ tail = rest := by
  obtain ⟨t, t', hwhole, hpoint, hexponent⟩ := gives_parts l htail
  have hnumber : Gives (number l.negative) (unsignedBytes l ++ tail) h rest ↔ l.head? = some h ∧ tail = rest := by
    rw [gives_number]
    apply Iff.intro
    · intro h'
      obtain ⟨whole, t₁, fraction, t₂, exponent, hwhole', hpoint', hexponent', hvalue⟩ := h'
      obtain ⟨rfl, rfl⟩ := hwhole.unique hwhole'
      obtain ⟨rfl, rfl⟩ := hpoint.unique hpoint'
      obtain ⟨rfl, rfl⟩ := hexponent.unique hexponent'
      exact ⟨hvalue, rfl⟩
    · intro h'
      obtain ⟨hvalue, rfl⟩ := h'
      exact ⟨_, t, _, t', _, hwhole, hpoint, hexponent, hvalue⟩
  rw [gives_head, ← hnumber]
  rcases shows_numeral l tail with ⟨hsign, hshows⟩ | ⟨hsign, c, u, hc, hbytes, hunsigned, hshows⟩
  · rw [hsign]
    apply Iff.intro
    · exact fun hhead => hhead.of_minus hshows
    · exact HeadText.negative hshows
  · rw [hsign, hbytes, hunsigned]
    apply Iff.intro
    · exact fun hhead => hhead.of_digit hshows hc
    · exact HeadText.natural hshows hc

/-- a numeral can be passed over, also where no double is near it -/
theorem skips_numeral (l : Numeral) (htail : EndsNumber tail) : Skips (l.bytes ++ tail) tail := by
  obtain ⟨t, t', hwhole, hpoint, hexponent⟩ := gives_parts l htail
  have hnumber := gives_skipNumber hwhole hpoint hexponent
  have hskip : Gives skipHead (l.bytes ++ tail) none tail := by
    rcases shows_numeral l tail with ⟨-, hshows⟩ | ⟨-, c, u, hc, hbytes, hunsigned, hshows⟩
    · exact gives_skipHead_negative hshows hnumber
    · rw [hbytes]
      exact gives_skipHead_number hshows hc (hunsigned ▸ hnumber)
  refine ⟨1, Nat.one_pos, ?_, fun stack => passes_one (step_scalar hskip)⟩
  have hpos : 0 < l.whole.length := List.length_pos_of_ne_nil l.isWhole.1
  simp only [bytes_eq, unsignedBytes, List.length_append, List.length_map]
  omega

theorem numberHead?_scalar {negative : Bool} {whole : List Char} {fraction : Option (List Char)} {exponent : Option Int}
    (hvalue : numberHead? negative whole fraction exponent = some h) : h ≠ .sequence ∧ h ≠ .map := by
  rcases numberHead?_cases hvalue with ⟨x, rfl⟩ | ⟨i, rfl⟩
  · exact ⟨nofun, nofun⟩
  · exact ⟨nofun, nofun⟩

end Reader

/-! ## The nearest double -/

open Reader Binary

/-- an integer that a word holds is as near to its double as its digits are -/
theorem ofInt_of_integer? {negative : Bool} {n : Nat} {i : Int} (h : integer? negative n = some i) :
    ofInt .double i = roundRat .double negative n := by
  have hround : ∀ s, round .double s n 1 = roundRat .double s n := by
    intro s
    rw [round_eq _ _ _ Nat.one_pos, Nat.cast_one, div_one]
  unfold integer? at h
  cases negative with
  | true =>
    simp only [↓reduceIte] at h
    split_ifs at h with hbad
    obtain rfl := Option.some.inj h
    have hneg : -(n : Int) < 0 := by omega
    rw [ofInt, Int.natAbs_neg, Int.natAbs_natCast, decide_eq_true hneg, hround]
  | false =>
    simp only [Bool.false_eq_true, ↓reduceIte] at h
    split_ifs at h
    obtain rfl := Option.some.inj h
    have hnonneg : ¬(n : Int) < 0 := by omega
    rw [ofInt, Int.natAbs_natCast, decide_eq_false hnonneg, hround]

/-- a numeral with a point or an exponent is a float, and so is one that no word holds -/
theorem Numeral.head?_eq (l : Numeral) : l.head? =
    let asFloat := floatHead? (Decimal.toBinary .double ⟨l.negative, l.digits, l.scale⟩)
    if l.fraction.isSome || l.exponent.isSome then asFloat
    else (integer? l.negative (Decimal.ofDigits l.whole)).elim asFloat fun n => some (.int n) := by
  unfold head? numberHead? scale
  cases l.exponent <;> rfl

/-- **A numeral is read as the double nearest to its value**, be it an integer or a float, if that is of ample size. -/
theorem Numeral.toDouble?_nearest {l : Numeral} {w : Json} (hw : l.head? = some w.head)
    (hlow : l.digits ≠ 0 → (10 : ℚ) ^ (-(Decimal.ampleDigits : Int)) ≤ l.magnitude)
    (hhigh : l.magnitude < 10 ^ (Decimal.ampleDigits : Int)) :
    w.toDouble? = some (roundRat .double l.negative l.magnitude) := by
  have hbinary : Decimal.toBinary .double ⟨l.negative, l.digits, l.scale⟩ = roundRat .double l.negative l.magnitude :=
    Decimal.toBinary_ample hlow hhigh
  have hfloat : floatHead? (roundRat .double l.negative l.magnitude) = some w.head →
      w.toDouble? = some (roundRat .double l.negative l.magnitude) := by
    intro h
    cases hround : roundRat .double l.negative l.magnitude with
    | finite x =>
      rw [hround] at h
      cases w <;> cases h
      rfl
    | infinite | nan =>
      rw [hround] at h
      cases h
  rw [Numeral.head?_eq, hbinary] at hw
  dsimp only at hw
  split_ifs at hw with hparts
  · exact hfloat hw
  · cases hint : integer? l.negative (Decimal.ofDigits l.whole) with
    | none =>
      rw [hint] at hw
      exact hfloat hw
    | some i =>
      rw [hint] at hw
      have hvalue : w = .int i := by
        cases w <;> cases hw
        rfl
      have hmagnitude : l.magnitude = (Decimal.ofDigits l.whole : Nat) := by
        obtain ⟨hfraction, hexponent⟩ : l.fraction = none ∧ l.exponent = none := by simpa using hparts
        simp [magnitude, digits, scale, hfraction, hexponent]
      rw [hvalue, hmagnitude]
      exact congrArg some (ofInt_of_integer? hint)

end PacketForwarder.Json
