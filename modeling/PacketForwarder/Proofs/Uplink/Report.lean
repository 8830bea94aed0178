/-
The text of a report, read back. A cell is `Legible` if it is read wherever it stands as it is read alone; what that
gives is `Cell.value?`. Naturals are legible (a size beyond the greatest double too, it can only be passed over), and so
are fixed texts of finite numbers and plain texts in quotes. A text of legible cells is read cell by cell
(`write_reads`), and every cell of a report of finite measurements is legible (`legible_report`).
-/
import PacketForwarder.Proofs.Json.Readings
import PacketForwarder.Proofs.Modulation.Datarate
import PacketForwarder.Proofs.Text.Base64
import PacketForwarder.Uplink

namespace PacketForwarder.Uplink

open Json Reader

/-! ## Cells -/

namespace Cell

variable {c : Cell} {n : Nat} {negative : Bool} {fraction : Option (List Char)} {t : String}

/-- the value that a cell spells on its own -/
def value? (c : Cell) : Option Json := (Json.parse (bytesOf c.text)).toOption

/-- read alike alone and before a delimiter -/
def Legible (c : Cell) : Prop := ∀ tail, Delimited tail → Reads (bytesOf c.text ++ tail) c.value? tail

/-- what is read in the same way before every delimiter is legible -/
theorem legible_of_reads {o : Option Json} (h : ∀ tail, Delimited tail → Reads (bytesOf c.text ++ tail) o tail) :
    c.Legible ∧ c.value? = o := by
  have halone := h [] (Or.inl rfl)
  rw [List.append_nil] at halone
  have hvalue : c.value? = o := parse_alone halone
  refine ⟨fun tail htail => ?_, hvalue⟩
  rw [hvalue]
  exact h tail htail

theorem ascii_numberChars (hfraction : IsFraction fraction) : ∀ c ∈ numberChars negative n fraction, c.toNat < 128 := by
  have hdigit : ∀ c : Char, c.isDigit = true → c.toNat < 128 := fun c hc => (plain_of_isDigit hc).ascii
  intro c hc
  rcases List.mem_append.1 hc with hc | hc
  · rcases List.mem_append.1 hc with hc | hc
    · cases negative with
      | false => cases hc
      | true =>
        rw [List.mem_singleton.1 hc]
        decide
    · exact hdigit c (isDigit_of_mem_toDigits hc)
  · cases fraction with
    | none => cases hc
    | some ds =>
      rcases List.mem_cons.1 hc with rfl | hc
      · decide
      · exact hdigit c ((hfraction ds rfl).2 c hc)

/-- **Written numbers are legible.** -/
theorem legible_number (hfraction : IsFraction fraction) (ht : t = String.ofList (numberChars negative n fraction)) :
    (bare t).Legible ∧
      (bare t).value? = (numberHead? negative (Nat.toDigits 10 n) fraction none).bind scalar? := by
  refine legible_of_reads fun tail htail => ?_
  change Reads (bytesOf t ++ tail) _ tail
  rw [ht, bytesOf_ascii (ascii_numberChars hfraction)]
  exact reads_number hfraction htail

/-- **Plain texts in quotes are legible.** -/
theorem legible_inQuotes (ht : PlainText t) : (inQuotes t).Legible ∧ (inQuotes t).value? = some (.str t) := by
  refine legible_of_reads fun tail htail => ?_
  have hbytes : bytesOf (inQuotes t).text ++ tail = '"'.toUInt8 :: (bytesOf t ++ '"'.toUInt8 :: tail) := by
    have hquote : bytesOf "\"" = ['"'.toUInt8] := by
      rw [bytesOf_eq]
      rfl
    change bytesOf ("\"" ++ t ++ "\"") ++ tail = _
    rw [bytesOf_append, bytesOf_append, hquote]
    simp
  rw [hbytes]
  exact reads_text ht

/-! ## Numbers -/

theorem numberHead?_whole : numberHead? negative (Nat.toDigits 10 n) none none =
    (integer? negative n).elim (floatHead? (Decimal.toBinary .double ⟨negative, n, 0⟩)) fun i => some (.int i) := by
  unfold numberHead?
  simp [Decimal.ofDigits_toDigits]

theorem whole_eq_int {i : Int} :
    (numberHead? negative (Nat.toDigits 10 n) none none).bind scalar? = some (.int i) ↔
      integer? negative n = some i := by
  rw [numberHead?_whole]
  cases integer? negative n with
  | some j => simp [scalar?]
  | none => cases Decimal.toBinary .double ⟨negative, n, 0⟩ <;> simp [floatHead?, scalar?]

theorem whole_ne_null : (numberHead? negative (Nat.toDigits 10 n) none none).bind scalar? ≠ some .null := by
  rw [numberHead?_whole]
  cases integer? negative n with
  | some j => simp [scalar?]
  | none => cases Decimal.toBinary .double ⟨negative, n, 0⟩ <;> simp [floatHead?, scalar?]

theorem legible_nat (n : Nat) : (nat n).Legible := (legible_number isFraction_none (natText_chars n)).1

theorem value?_nat : (nat n).value? = some (.int n) ↔ n < 2 ^ 64 := by
  have hvalue := (legible_number isFraction_none (natText_chars n)).2
  have hword : integer? false n = some (n : Int) ↔ n < twoPow 64 := by
    unfold integer?
    simp
  change (bare (toString n)).value? = _ ↔ _
  rw [hvalue, whole_eq_int, hword]
  rfl

theorem value?_word (w : UInt32) : (nat w.toNat).value? = some (.int w.toNat) :=
  value?_nat.2 (w.toNat_lt.trans (by norm_num))

theorem value?_byte (w : UInt8) : (nat w.toNat).value? = some (.int w.toNat) :=
  value?_nat.2 (w.toNat_lt.trans (by norm_num))

theorem legible_fixed {f : BinaryFormat} (places : Nat) (x : BinaryNumber f) :
    (bare ((Binary.finite x).fixed places)).Legible :=
  (legible_number (isFraction_fractionOf _ _) (Binary.fixed_chars places x)).1

/-- **A fixed text with a point is read as the number rounded to its places.** -/
theorem value?_fixed {places : Nat} {x : BinaryNumber .double} (hp : 0 < places) (hmax : places ≤ 6)
    (hx : x.magnitude ≤ 2 ^ 128) :
    ∃ y, Binary.roundRat .double x.negative (Binary.units places x / 10 ^ places) = .finite y ∧
      (bare ((Binary.finite x).fixed places)).value? = some (.float y) ∧ rounded places (.finite x) = .float y := by
  have hlt : Binary.units places x % tenPow places < 10 ^ places := Nat.mod_lt _ (tenPow_pos places)
  obtain ⟨hround, y, hy⟩ := Binary.toBinary_units hmax x hx
  refine ⟨y, hy, ?_, ?_⟩
  · have hfraction : fractionOf places (Binary.units places x) =
        some (paddedDigits places (Binary.units places x % tenPow places)) := if_neg hp.ne'
    rw [(legible_number (isFraction_fractionOf _ _) (Binary.fixed_chars places x)).2, hfraction]
    unfold numberHead?
    simp only [Option.getD_some, Option.getD_none, Option.isSome_some, Bool.true_or, ↓reduceIte]
    rw [Decimal.ofDigits_placePoint _ hp, length_paddedDigits hp hlt, zero_sub, hround, hy]
    rfl
  · unfold rounded
    rw [Binary.ofText?_fixed hp, hround, hy]
    rfl

/-- **A frequency is read as the double that was written.** -/
theorem value?_frequency (hz : UInt32) : ∃ x : BinaryNumber .double, Frequency.toMegahertz hz = .finite x ∧
    (bare ((Frequency.toMegahertz hz).fixed frequencyPlaces)).value? = some (.float x) ∧
      rounded frequencyPlaces (Frequency.toMegahertz hz) = .float x := by
  obtain ⟨x, hx, hs, hunits, hmax⟩ := Frequency.toMegahertz_finite hz
  have hplaces : Binary.units frequencyPlaces x = hz.toNat := hunits
  obtain ⟨y, hy, htext, hrounded⟩ := value?_fixed (by decide : 0 < frequencyPlaces) (by decide)
    (hmax.trans (by norm_num))
  have hsame : Binary.finite y = Binary.finite x := by
    rw [← hy, hs, hplaces, ← hx, Frequency.toMegahertz_eq]
    rfl
  obtain rfl := Binary.finite.inj hsame
  exact ⟨_, hx, hx ▸ htext, hx ▸ hrounded⟩

/-- the code of a checksum is written as an integer -/
theorem code_chars (c : CrcStatus) : ∃ negative n, toString c.code = String.ofList (numberChars negative n none) ∧
    integer? negative n = some c.code := by
  cases c with
  | ok => exact ⟨false, 1, by rfl, by decide⟩
  | fail => exact ⟨true, 1, by rfl, by decide⟩
  | absent => exact ⟨false, 0, by rfl, by decide⟩

theorem legible_code (c : CrcStatus) : (bare (toString c.code)).Legible ∧
    (bare (toString c.code)).value? = some (.int c.code) := by
  obtain ⟨negative, n, htext, hint⟩ := code_chars c
  obtain ⟨hlegible, hvalue⟩ := legible_number isFraction_none htext
  exact ⟨hlegible, hvalue.trans (whole_eq_int.2 hint)⟩

end Cell

/-! ## Reports -/

variable {fields : List (String × Cell)} {p : ReceivePacket}

theorem bytesOf_fieldText (f : String × Cell) : bytesOf (fieldText f) =
    '"'.toUInt8 :: (bytesOf f.1 ++ '"'.toUInt8 :: ':'.toUInt8 :: bytesOf f.2.text) := by
  have hopen : bytesOf "\"" = ['"'.toUInt8] := by
    rw [bytesOf_eq]
    rfl
  have hcolon : bytesOf "\":" = ['"'.toUInt8, ':'.toUInt8] := by
    rw [bytesOf_eq]
    rfl
  simp [fieldText, hopen, hcolon]

/-- the fields with commas between them, and the closing brace -/
theorem bytesOf_fields (hne : fields ≠ []) :
    bytesOf (",".intercalate (fields.map fieldText)) ++ ['\x7d'.toUInt8] =
      '"'.toUInt8 :: membersBytes (fun c => bytesOf c.text) fields := by
  have hcomma : bytesOf "," = [','.toUInt8] := by
    rw [bytesOf_eq]
    rfl
  induction fields with
  | nil => exact absurd rfl hne
  | cons f fs ih =>
    cases fs with
    | nil => simp [membersBytes, bytesOf_fieldText]
    | cons f' fs =>
      have hrest := ih (List.cons_ne_nil f' fs)
      simp only [List.map_cons, String.intercalate_cons_cons, bytesOf_append, hcomma, List.append_assoc] at hrest ⊢
      rw [hrest]
      simp [membersBytes, bytesOf_fieldText]

theorem bytesOf_write (hne : fields ≠ []) : bytesOf (write fields) = objectBytes (fun c => bytesOf c.text) fields := by
  have hopen : bytesOf "\x7b" = ['\x7b'.toUInt8] := by
    rw [bytesOf_eq]
    rfl
  have hclose : bytesOf "\x7d" = ['\x7d'.toUInt8] := by
    rw [bytesOf_eq]
    rfl
  unfold write
  rw [bytesOf_append, bytesOf_append, hopen, hclose, List.append_assoc, bytesOf_fields hne]
  rfl

/-- **A text of legible cells is read cell by cell.** -/
theorem write_reads (hne : fields ≠ []) (hkeys : ∀ f ∈ fields, PlainText f.1) (hcells : ∀ f ∈ fields, f.2.Legible) :
    RootReads (bytesOf (write fields)) (fields.map fun f => (f.1, f.2.value?)) := by
  rw [bytesOf_write hne]
  exact rootReads_written hne hkeys hcells

/-! ## The cells of a report -/

theorem plain_zeroPadded (width n : Nat) : PlainText (zeroPadded width n) :=
  plainText_digits fun _ hc => isDigit_of_mem_paddedDigits hc

theorem plain_toSecondsText (t : Instant) : PlainText t.toSecondsText := by
  have hyear : PlainText (Instant.yearText t.date.year) := by
    unfold Instant.yearText
    dsimp only
    split_ifs
    · exact plain_zeroPadded _ _
    · exact PlainText.append (by decide) (plain_zeroPadded _ _)
    · exact PlainText.append (by decide) (plain_zeroPadded _ _)
  unfold Instant.toSecondsText Instant.textWith
  dsimp only
  have h2 := plain_zeroPadded 2
  have hmark : ∀ s ∈ ["-", "T", ":", "", "Z"], PlainText s := by decide
  simp only [List.forall_mem_cons] at hmark
  obtain ⟨hdash, htee, hcolon, hnone, hzone, -⟩ := hmark
  exact ((((((((((((hyear.append hdash).append (h2 _)).append hdash).append (h2 _)).append htee).append (h2 _)).append
    hcolon).append (h2 _)).append hcolon).append (h2 _)).append hnone).append hzone)

theorem plain_wireName (m : Modulation) : PlainText m.wireName := by
  cases m <;> decide

theorem plain_fraction (c : CodingRate) : PlainText c.fraction := by
  cases c <;> decide

/-- a packet whose measurements are numbers -/
structure Measured (p : ReceivePacket) : Prop where
  rssi : ∃ x, p.rssi = .finite x
  snr : ∀ s, p.modulation = .lora s → ∃ x, s.snr = .finite x

theorem legible_modulationReport (h : Measured p) : ∀ f ∈ modulationReport p.modulation, f.2.Legible := by
  cases hmodulation : p.modulation with
  | lora s =>
    obtain ⟨x, hx⟩ := h.snr s hmodulation
    simp only [modulationReport, List.forall_mem_cons, hx]
    exact ⟨(Cell.legible_inQuotes (Datarate.text_plain _)).1, (Cell.legible_inQuotes (plain_fraction _)).1,
      Cell.legible_fixed _ x, nofun⟩
  | fsk s =>
    simp only [modulationReport, List.forall_mem_cons]
    exact ⟨Cell.legible_nat _, nofun⟩

/-- **Every cell of a report is legible**, if the measurements are numbers. -/
theorem legible_report (h : Measured p) : ∀ f ∈ report p, f.2.Legible := by
  obtain ⟨x, hx⟩ := h.rssi
  obtain ⟨y, hy, -⟩ := Frequency.quotient_double p.frequency.toNat_lt
  simp only [report, List.forall_mem_append, List.forall_mem_cons, hx, Frequency.toMegahertz_eq, hy]
  refine ⟨⟨⟨Cell.legible_nat _, (Cell.legible_inQuotes (plain_toSecondsText _)).1, Cell.legible_nat _,
    Cell.legible_nat _, Cell.legible_fixed _ y, (Cell.legible_code _).1, (Cell.legible_inQuotes (plain_wireName _)).1,
    nofun⟩, legible_modulationReport h⟩, Cell.legible_fixed _ x, Cell.legible_nat _,
    (Cell.legible_inQuotes (Base64.encode_plain _)).1, nofun⟩

def reportKeys : Modulation → List String
  | .lora =>
    ["tmst", "time", "chan", "rfch", "freq", "stat", "modu", "datr", "codr", "lsnr", "rssi", "size", "data"]
  | .fsk => ["tmst", "time", "chan", "rfch", "freq", "stat", "modu", "datr", "rssi", "size", "data"]

theorem nodup_reportKeys (m : Modulation) : (reportKeys m).Nodup := by
  cases m <;> decide

theorem names_report (p : ReceivePacket) : names (report p) = reportKeys p.modulation.kind := by
  unfold report
  cases p.modulation <;> rfl

theorem plain_keys {f : String × Cell} (hf : f ∈ report p) : PlainText f.1 := by
  have hkey : f.1 ∈ reportKeys p.modulation.kind := names_report p ▸ List.mem_map_of_mem hf
  have hplain : ∀ m, ∀ key ∈ reportKeys m, PlainText key := by
    intro m
    cases m <;> decide
  exact hplain _ _ hkey

/-- **The text of a report is read cell by cell.** -/
theorem encode_reads (h : Measured p) :
    RootReads (encode p).toUTF8.toList ((report p).map fun f => (f.1, f.2.value?)) :=
  write_reads (List.cons_ne_nil _ _) (fun _ => plain_keys) (legible_report h)

theorem get?_encode {key : String} {c : Cell} {v : Json} (h : Measured p) (hv : Json.parse (bytesOf (encode p)) = .ok v)
    (hc : (key, c) ∈ report p) : v.get? key = c.value? := by
  obtain ⟨vs, hreadable, rfl⟩ := (parse_reads (encode_reads h)).1 hv
  have hnodup : (names vs).Nodup := by
    have hnames : names vs = names (report p) := by
      rw [← hreadable.names_eq, names, List.map_map]
      rfl
    rw [hnames, names_report]
    exact nodup_reportKeys _
  have hmem : (key, c.value?) ∈ vs.map fun m => (m.1, some m.2) := hreadable ▸ List.mem_map_of_mem hc
  obtain ⟨m, hm, heq⟩ := List.mem_map.1 hmem
  obtain ⟨rfl, hvalue⟩ := Prod.mk.inj heq
  rw [get?_ofMembers_of_mem hnodup hm, hvalue]

end PacketForwarder.Uplink
