/-
The text of a report as JSON. A report is put together by hand from the texts of its cells, so it is an object exactly
if every cell is a number or a plain text (`write_object_iff`). Naturals and fixed texts of finite numbers are; the
words for what is not a number are not, since they begin with letters that no text has outside of its strings.

Results:
- `encode_object_iff`: the report of a packet is an object exactly if its measurements are finite.
- `nanStrength_noObject`: a strength that is no number gives a text that is none.
-/
import PacketForwarder.Proofs.Json.Grammar
import PacketForwarder.Proofs.Uplink.Report
import PacketForwarder.Radio.Sample

namespace PacketForwarder.Uplink

open Json Json.Grammar

variable {p : ReceivePacket} {fields : List (String × Cell)} {f : BinaryFormat} {t : String}

/-! ## Cells -/

namespace Cell

/-- the cell is a number or a plain text, so nothing in it is nested or escaped -/
def IsFlat : Cell → Prop
  | bare t => ∃ l : Numeral, t.toList = l.chars
  | inQuotes t => PlainText t

/-- the text of a cell has what no JSON text has outside of strings -/
def IsStray (c : Cell) : Prop := scan .outside c.text.toList = none

theorem isFlat_number {negative : Bool} {n : Nat} {fraction : Option (List Char)} (hfraction : IsFraction fraction)
    (ht : t = String.ofList (numberChars negative n fraction)) : (bare t).IsFlat := by
  refine ⟨.plain negative n fraction hfraction, ?_⟩
  rw [ht, String.toList_ofList, Numeral.plain_chars]

theorem isFlat_inQuotes : (inQuotes t).IsFlat ↔ PlainText t := Iff.rfl

theorem IsFlat.text {c : Cell} (h : c.IsFlat) : Text .value c.text.toList := by
  cases c with
  | bare t =>
    obtain ⟨l, hl⟩ := h
    change Text .value t.toList
    rw [hl]
    exact .number l
  | inQuotes t =>
    have htext : (inQuotes t).text.toList = '"' :: (t.toList ++ ['"']) := by simp [Cell.text]
    rw [htext]
    exact .string (characters_plain h)

theorem isFlat_nat (n : Nat) : (nat n).IsFlat := isFlat_number isFraction_none (natText_chars n)

theorem isFlat_code (c : CrcStatus) : (bare (toString c.code)).IsFlat := by
  obtain ⟨negative, n, htext, -⟩ := code_chars c
  exact isFlat_number isFraction_none htext

theorem isFlat_finite (places : Nat) (x : BinaryNumber f) : (bare ((Binary.finite x).fixed places)).IsFlat :=
  isFlat_number (isFraction_fractionOf _ _) (Binary.fixed_chars places x)

/-- what is not finite is written as a word that JSON does not have -/
theorem isStray_fixed (places : Nat) {x : Binary f} (hx : ∀ y, x ≠ .finite y) : (bare (x.fixed places)).IsStray := by
  have hwords : ∀ w ∈ ["NaN", "inf", "-inf"], scan .outside w.toList = none := by decide
  cases x with
  | finite y => exact absurd rfl (hx y)
  | infinite negative =>
    cases negative with
    | false => exact hwords "inf" (by decide)
    | true => exact hwords "-inf" (by decide)
  | nan => exact hwords "NaN" (by decide)

theorem IsFlat.scan {c : Cell} (h : c.IsFlat) : scan .outside c.text.toList = some .outside := h.text.scan

theorem IsStray.not_isFlat {c : Cell} (h : c.IsStray) : ¬c.IsFlat := by
  intro hflat
  have hscan := hflat.scan
  rw [h] at hscan
  cases hscan

/-- **A fixed text is a number exactly if the number is finite.** -/
theorem isFlat_fixed_iff {places : Nat} {x : Binary f} : (bare (x.fixed places)).IsFlat ↔ ∃ y, x = .finite y := by
  apply Iff.intro
  · intro h
    by_contra hx
    exact (isStray_fixed places fun y hy => hx ⟨y, hy⟩).not_isFlat h
  · rintro ⟨y, rfl⟩
    exact isFlat_finite places y

theorem fixed_isFlat_or_isStray (places : Nat) (x : Binary f) :
    (bare (x.fixed places)).IsFlat ∨ (bare (x.fixed places)).IsStray := by
  by_cases hx : ∃ y, x = .finite y
  · exact Or.inl (isFlat_fixed_iff.2 hx)
  · exact Or.inr (isStray_fixed places fun y hy => hx ⟨y, hy⟩)

end Cell

/-! ## Written fields -/

def fieldChars (f : String × Cell) : List Char × List Char := (f.1.toList, f.2.text.toList)

theorem toList_fieldText (f : String × Cell) :
    (fieldText f).toList = '"' :: (f.1.toList ++ '"' :: ':' :: f.2.text.toList) := by
  simp [fieldText]

def fieldsText (fields : List (String × Cell)) : String := ",".intercalate (fields.map fieldText)

theorem toList_write (fields : List (String × Cell)) :
    (write fields).toList = [] ++ '\x7b' :: ((fieldsText fields).toList ++ ['\x7d']) ++ [] := by
  simp [write, fieldsText]

theorem fieldsText_one (f : String × Cell) : (fieldsText [f]).toList = (fieldText f).toList := by
  simp [fieldsText]

theorem fieldsText_cons (f f' : String × Cell) (fs : List (String × Cell)) :
    (fieldsText (f :: f' :: fs)).toList = (fieldText f).toList ++ ',' :: (fieldsText (f' :: fs)).toList := by
  simp [fieldsText, String.intercalate_cons_cons]

theorem fieldsText_append {fs gs : List (String × Cell)} (hfs : fs ≠ []) (hgs : gs ≠ []) :
    fieldsText (fs ++ gs) = fieldsText fs ++ "," ++ fieldsText gs := by
  obtain ⟨g, gs, rfl⟩ := List.exists_cons_of_ne_nil hgs
  refine String.toList_inj.1 ?_
  rw [String.toList_append, String.toList_append]
  induction fs with
  | nil => exact absurd rfl hfs
  | cons f fs ih =>
    cases fs with
    | nil =>
      rw [List.singleton_append, fieldsText_cons, fieldsText_one]
      simp
    | cons f' fs =>
      rw [List.cons_append, List.cons_append, fieldsText_cons, ← List.cons_append, ih (List.cons_ne_nil f' fs),
        fieldsText_cons]
      simp

theorem text_field {f : String × Cell} (hkey : PlainText f.1) (hcell : f.2.IsFlat) :
    Text (.members [fieldChars f]) (fieldText f).toList := by
  rw [toList_fieldText]
  exact .member blanks_nil (characters_plain hkey) blanks_nil (Text.bare hcell.text)

theorem text_fields (hne : fields ≠ []) (hkeys : ∀ f ∈ fields, PlainText f.1) (hcells : ∀ f ∈ fields, f.2.IsFlat) :
    Text (.members (fields.map fieldChars)) (fieldsText fields).toList := by
  induction fields with
  | nil => exact absurd rfl hne
  | cons f fs ih =>
    have hf := text_field (hkeys f List.mem_cons_self) (hcells f List.mem_cons_self)
    cases fs with
    | nil =>
      rw [fieldsText_one]
      exact hf
    | cons f' fs =>
      rw [fieldsText_cons]
      exact .members hf (ih (List.cons_ne_nil f' fs) (fun g hg => hkeys g (List.mem_cons_of_mem f hg))
        fun g hg => hcells g (List.mem_cons_of_mem f hg))

/-- **Written fields with flat cells are an object with these members.** -/
theorem write_object (hne : fields ≠ []) (hkeys : ∀ f ∈ fields, PlainText f.1) (hcells : ∀ f ∈ fields, f.2.IsFlat) :
    ObjectText (write fields).toList (fields.map fieldChars) :=
  ⟨[], _, [], blanks_nil, blanks_nil, toList_write fields, Or.inr (text_fields hne hkeys hcells)⟩

theorem scan_field {f : String × Cell} (hkey : PlainText f.1) :
    scan .outside (fieldText f).toList = scan .outside f.2.text.toList := by
  rw [toList_fieldText, scan_string (characters_plain hkey), scan_cons (q := .outside) rfl]

/-- a scan of written fields stops at a stray cell -/
theorem scan_fields (hkeys : ∀ f ∈ fields, PlainText f.1) (hcells : ∀ f ∈ fields, f.2.IsFlat ∨ f.2.IsStray)
    {g : String × Cell} (hg : g ∈ fields) (hstray : g.2.IsStray) : scan .outside (fieldsText fields).toList = none := by
  induction fields with
  | nil => cases hg
  | cons f fs ih =>
    have hfield := scan_field (hkeys f List.mem_cons_self)
    cases fs with
    | nil =>
      rw [fieldsText_one, hfield, ← List.mem_singleton.1 hg]
      exact hstray
    | cons f' fs =>
      rw [fieldsText_cons, scan_append, hfield]
      rcases hcells f List.mem_cons_self with hflat | hf
      · have hrest : g ∈ f' :: fs := by
          refine (List.mem_cons.1 hg).resolve_left fun heq => ?_
          exact hstray.not_isFlat (heq ▸ hflat)
        rw [hflat.scan, Option.bind_some, scan_cons (q := .outside) rfl]
        exact ih (fun h hh => hkeys h (List.mem_cons_of_mem f hh))
          (fun h hh => hcells h (List.mem_cons_of_mem f hh)) hrest
      · rw [hf]
        rfl

/-- **Written fields are an object exactly if every cell is flat**, where those that are not are stray. -/
theorem write_object_iff (hne : fields ≠ []) (hkeys : ∀ f ∈ fields, PlainText f.1)
    (hcells : ∀ f ∈ fields, f.2.IsFlat ∨ f.2.IsStray) :
    (∃ ms, ObjectText (write fields).toList ms) ↔ ∀ f ∈ fields, f.2.IsFlat := by
  apply Iff.intro
  · intro h f hf
    obtain ⟨ms, hobject⟩ := h
    refine (hcells f hf).resolve_right fun hstray => ?_
    have hscan := hobject.scan
    rw [toList_write, List.nil_append, List.append_nil, scan_cons (q := .outside) rfl, scan_append,
      scan_fields hkeys hcells hf hstray] at hscan
    cases hscan
  · exact fun h => ⟨_, write_object hne hkeys h⟩

/-! ## Reports -/

open Cell in
theorem cells_report (p : ReceivePacket) : ∀ f ∈ report p, f.2.IsFlat ∨ f.2.IsStray := by
  have hmodulation : ∀ f ∈ modulationReport p.modulation, f.2.IsFlat ∨ f.2.IsStray := by
    cases p.modulation with
    | lora s =>
      simp only [modulationReport, List.forall_mem_cons]
      exact ⟨Or.inl (Datarate.text_plain _), Or.inl (plain_fraction _),
        fixed_isFlat_or_isStray _ _, List.forall_mem_nil _⟩
    | fsk s =>
      simp only [modulationReport, List.forall_mem_cons]
      exact ⟨Or.inl (isFlat_nat _), List.forall_mem_nil _⟩
  simp only [report, List.forall_mem_append, List.forall_mem_cons]
  exact ⟨⟨⟨Or.inl (isFlat_nat _), Or.inl (plain_toSecondsText _), Or.inl (isFlat_nat _),
    Or.inl (isFlat_nat _), fixed_isFlat_or_isStray _ _, Or.inl (isFlat_code _),
    Or.inl (plain_wireName _), List.forall_mem_nil _⟩, hmodulation⟩, fixed_isFlat_or_isStray _ _,
    Or.inl (isFlat_nat _), Or.inl (Base64.encode_plain _), List.forall_mem_nil _⟩

open Cell in
/-- the cells of a report are all flat exactly if the measurements are finite -/
theorem isFlat_report_iff : (∀ f ∈ report p, f.2.IsFlat) ↔ Measured p := by
  have hfreq : ∃ x, Frequency.toMegahertz p.frequency = .finite x := by
    obtain ⟨x, hx, -⟩ := Frequency.toMegahertz_finite p.frequency
    exact ⟨x, hx⟩
  have hmodulation : (∀ f ∈ modulationReport p.modulation, f.2.IsFlat) ↔
      ∀ s, p.modulation = .lora s → ∃ x, s.snr = .finite x := by
    cases p.modulation with
    | lora s =>
      simp [modulationReport, isFlat_inQuotes, Datarate.text_plain _, plain_fraction _,
        isFlat_fixed_iff]
    | fsk s => simp [modulationReport, isFlat_nat]
  have hreport : (∀ f ∈ report p, f.2.IsFlat) ↔
      (∀ f ∈ modulationReport p.modulation, f.2.IsFlat) ∧ ∃ x, p.rssi = .finite x := by
    simp only [report, List.forall_mem_append, List.forall_mem_cons, isFlat_nat, isFlat_code, isFlat_fixed_iff,
      isFlat_inQuotes, hfreq, plain_toSecondsText _, plain_wireName _, Base64.encode_plain _, List.not_mem_nil,
      false_imp_iff, implies_true, true_and, and_true]
  rw [hreport, hmodulation]
  exact ⟨fun h => ⟨h.2, h.1⟩, fun h => ⟨h.snr, h.rssi⟩⟩

theorem encode_object (h : Measured p) : ObjectText (encode p).toList ((report p).map fieldChars) :=
  write_object (List.cons_ne_nil _ _) (fun _ => plain_keys) (isFlat_report_iff.2 h)

/-- **The report of a packet is an object exactly if its measurements are finite.** -/
theorem encode_object_iff : (∃ ms, ObjectText (encode p).toList ms) ↔ Measured p :=
  (write_object_iff (List.cons_ne_nil _ _) (fun _ => plain_keys) (cells_report p)).trans isFlat_report_iff

theorem measured_sample : Measured ReceivePacket.sample := by
  refine ⟨⟨_, rfl⟩, fun s hs => ?_⟩
  obtain rfl := ReceiveModulation.lora.inj hs
  exact ⟨⟨false, 9961472, -20, by decide⟩, by decide⟩

/-- the sample packet, with a strength that is no number -/
def nanStrength : ReceivePacket := { ReceivePacket.sample with rssi := .nan }

/-- a report that is an object, and one that is none -/
theorem nanStrength_noObject : (∃ ms, ObjectText (encode ReceivePacket.sample).toList ms) ∧
    ¬∃ ms, ObjectText (encode nanStrength).toList ms := by
  refine ⟨encode_object_iff.2 measured_sample, fun h => ?_⟩
  obtain ⟨x, hx⟩ := (encode_object_iff.1 h).rssi
  cases hx

end PacketForwarder.Uplink
