/-
Which objects are decoded, and to what. `Acceptable` lists what has to hold of the fourteen fields of an object; it is
stated over the wire alone, in the order in which the fields are described. `WellTyped` is the part of it that looks at
one field at a time. `Carries` says that a packet holds what the wire gives and nothing else.

Results:
- `decode_accepts`: an object is decoded exactly if it is acceptable with a spreading factor of 32 bits, and the packet
  carries what the object gives. The policy only adds its own condition.
- `factorTooGreat_refused`: the bound on the spreading factor is needed. A datarate is digits on the wire, but a factor
  that no word of 32 bits holds is refused like any other text that spells no datarate.

The way there: an object holds at most one request (`Request.Holds`), and holds one if it is well-typed
(`wellTyped_iff`). A request is decoded if its scheduling, its modulation and its payload are accepted
(`Request.decode_eq_ok_iff`).
-/
import PacketForwarder.Proofs.Downlink.Checks
import PacketForwarder.Proofs.Downlink.Request

namespace PacketForwarder

open Json Request

/-! ## Conditions on the wire -/

/-- left out, or given with such a value -/
def LeftOutOrIs (given : Option Json) (P : Json → Prop) : Prop := given = none ∨ ∃ v, given = some v ∧ P v

def Is (given : Option Json) (P : Json → Prop) : Prop := ∃ v, given = some v ∧ P v

namespace Json

def IsBool (v : Json) : Prop := ∃ b, v = .bool b

def IsText (v : Json) : Prop := ∃ s, v = .str s

def IsNumber (v : Json) : Prop := (∃ n, v = .int n) ∨ ∃ x, v = .float x

def IsWord (bits : Nat) (v : Json) : Prop := ∃ n : Nat, v = .int n ∧ n < 2 ^ bits

def IsNullOrWord (bits : Nat) (v : Json) : Prop := v = .null ∨ v.IsWord bits

end Json

namespace Downlink

def Sets (v : Json) : ScheduleField → Prop
  | .imme => v.get? "imme" = some (.bool true)
  | .tmst => ∃ x, v.get? "tmst" = some x ∧ x ≠ .null
  | .tmms => ∃ x, v.get? "tmms" = some x ∧ x ≠ .null

/-- a LoRa modulation: a text that spells a datarate with such a factor, and a spelling of a coding rate -/
structure SpellsLora (fits : Nat → Prop) (v : Json) : Prop where
  modu : v.get? "modu" = some (.str "LORA")
  datr : ∃ word factor b, v.get? "datr" = some (.str word) ∧ Datarate.Spells word factor b ∧ fits factor
  codr : ∃ s c, v.get? "codr" = some (.str s) ∧ s ∈ CodingRate.spellings c

/-- an FSK modulation: any number as its datarate -/
structure SpellsFsk (v : Json) : Prop where
  modu : v.get? "modu" = some (.str "FSK")
  datr : Is (v.get? "datr") Json.IsNumber

/-- The fields of an object have values of their kinds, or are left out where they may be; a datarate is of any kind. -/
structure WellTyped (v : Json) : Prop where
  imme : LeftOutOrIs (v.get? "imme") Json.IsBool
  ncrc : LeftOutOrIs (v.get? "ncrc") Json.IsBool
  ipol : LeftOutOrIs (v.get? "ipol") Json.IsBool
  tmst : LeftOutOrIs (v.get? "tmst") (Json.IsNullOrWord 32)
  tmms : LeftOutOrIs (v.get? "tmms") (Json.IsNullOrWord 64)
  freq : Is (v.get? "freq") Json.IsNumber
  rfch : Is (v.get? "rfch") (Json.IsWord 8)
  powe : LeftOutOrIs (v.get? "powe") (Json.IsWord 8)
  prea : LeftOutOrIs (v.get? "prea") (Json.IsWord 16)
  fdev : LeftOutOrIs (v.get? "fdev") Json.IsNumber
  modu : Is (v.get? "modu") Json.IsText
  data : Is (v.get? "data") Json.IsText
  codr : LeftOutOrIs (v.get? "codr") Json.IsText

/-- **What has to hold of an object**, where `fits` bounds the spreading factor. -/
structure Acceptable (fits : Nat → Prop) (policy : SchedulePolicy) (v : Json) : Prop where
  imme : LeftOutOrIs (v.get? "imme") Json.IsBool
  ncrc : LeftOutOrIs (v.get? "ncrc") Json.IsBool
  ipol : LeftOutOrIs (v.get? "ipol") Json.IsBool
  tmst : LeftOutOrIs (v.get? "tmst") (Json.IsNullOrWord 32)
  tmms : LeftOutOrIs (v.get? "tmms") (Json.IsNullOrWord 64)
  freq : Is (v.get? "freq") Json.IsNumber
  rfch : Is (v.get? "rfch") (Json.IsWord 8)
  powe : LeftOutOrIs (v.get? "powe") (Json.IsWord 8)
  prea : LeftOutOrIs (v.get? "prea") (Json.IsWord 16)
  fdev : LeftOutOrIs (v.get? "fdev") Json.IsNumber
  modu : Is (v.get? "modu") Json.IsText
  data : Is (v.get? "data") Json.IsText
  codr : LeftOutOrIs (v.get? "codr") Json.IsText
  modulation : SpellsLora fits v ∨ SpellsFsk v
  payload : ∃ bytes, v.get? "data" = some (.str (Base64.encode bytes))
  schedule : policy = .exclusive → ∃! f, Sets v f

/-- the settings of a modulation are those of the wire -/
def CarriesModulation (v : Json) : TransmitModulation → Prop
  | .lora s =>
    v.get? "modu" = some (.str "LORA") ∧
    (∃ word, v.get? "datr" = some (.str word) ∧ Datarate.Spells word s.spreadingFactor.toNat s.bandwidth) ∧
    (∃ t ∈ s.codingRate.spellings, v.get? "codr" = some (.str t)) ∧
    LeftOutOr (v.get? "ipol") (s.invertPolarity = false) (.bool s.invertPolarity)
  | .fsk s =>
    v.get? "modu" = some (.str "FSK") ∧
    (∃ x, (v.get? "datr").bind Json.toDouble? = some x ∧ s.bitrate = .ofNat (x.clamp maxBitrate)) ∧
    ∃ x, ((v.get? "fdev" = none ∧ x = .zero .double) ∨ (v.get? "fdev").bind Json.toDouble? = some x) ∧
      s.deviationKhz = Deviation.ofHertz x

/-- **A packet holds what the wire gives.** -/
structure Carries (v : Json) (p : TransmitPacket) : Prop where
  immediate : LeftOutOr (v.get? "imme") (p.immediate = false) (.bool p.immediate)
  counter : ∃ word, MaybeWord (v.get? "tmst") word ∧ p.counter.toNat = word.getD 0
  gpsTime : MaybeWord (v.get? "tmms") (p.gpsTime.map UInt64.toNat)
  frequency : ∃ x, (v.get? "freq").bind Json.toDouble? = some x ∧ p.frequency = Frequency.ofMegahertz x
  power : LeftOutOr (v.get? "powe") (p.power = 0) (.int p.power.toNat)
  rfChain : v.get? "rfch" = some (.int p.rfChain.toNat)
  noCrc : LeftOutOr (v.get? "ncrc") (p.noCrc = false) (.bool p.noCrc)
  preambleLength : LeftOutOr (v.get? "prea") (p.preambleLength = 0) (.int p.preambleLength.toNat)
  modulation : CarriesModulation v p.modulation
  payload : v.get? "data" = some (.str (Base64.encode p.payload))

end Downlink

/-! ## Fields that may be given -/

section Fields

variable {α : Type} {given : Option Json} {v : Json} {P : Json → Prop} {wrap : α → Json}

/-- a field with a default, where every value of its kind stands for something -/
theorem leftOutOrIs_iff {d : α} (hP : ∀ v, P v ↔ ∃ a, v = wrap a) :
    LeftOutOrIs given P ↔ ∃ a, LeftOutOr given (a = d) (wrap a) := by
  unfold LeftOutOrIs LeftOutOr
  apply Iff.intro
  · intro h
    rcases h with hnone | ⟨v, hv, hPv⟩
    · exact ⟨d, Or.inl ⟨hnone, rfl⟩⟩
    · obtain ⟨a, rfl⟩ := (hP v).1 hPv
      exact ⟨a, Or.inr hv⟩
  · intro h
    rcases h with ⟨a, ⟨hnone, -⟩ | hv⟩
    · exact Or.inl hnone
    · exact Or.inr ⟨wrap a, hv, (hP _).2 ⟨a, rfl⟩⟩

theorem is_iff (hP : ∀ v, P v ↔ ∃ a, v = wrap a) : Is given P ↔ ∃ a, given = some (wrap a) := by
  unfold Is
  apply Iff.intro
  · intro h
    obtain ⟨v, hv, hPv⟩ := h
    obtain ⟨a, rfl⟩ := (hP v).1 hPv
    exact ⟨a, hv⟩
  · intro h
    obtain ⟨a, ha⟩ := h
    exact ⟨wrap a, ha, (hP _).2 ⟨a, rfl⟩⟩

/-- a word that may be left out or null -/
theorem leftOutOrIs_word {bits : Nat} {toNat : α → Nat} (hword : ∀ n, n < 2 ^ bits ↔ ∃ a, n = toNat a) :
    LeftOutOrIs given (Json.IsNullOrWord bits) ↔ ∃ o : Option α, MaybeWord given (o.map toNat) := by
  unfold LeftOutOrIs MaybeWord Json.IsNullOrWord
  apply Iff.intro
  · intro h
    rcases h with hnone | ⟨v, hv, rfl | ⟨n, rfl, hn⟩⟩
    · exact ⟨none, Or.inl ⟨rfl, Or.inl hnone⟩⟩
    · exact ⟨none, Or.inl ⟨rfl, Or.inr hv⟩⟩
    · obtain ⟨a, rfl⟩ := (hword n).1 hn
      exact ⟨some a, Or.inr ⟨_, rfl, hv⟩⟩
  · intro h
    rcases h with ⟨o, ⟨-, hnone | hnull⟩ | ⟨n, hn, hv⟩⟩
    · exact Or.inl hnone
    · exact Or.inr ⟨_, hnull, Or.inl rfl⟩
    · obtain ⟨a, -, rfl⟩ := Option.map_eq_some_iff.1 hn
      exact Or.inr ⟨_, hv, Or.inr ⟨_, rfl, (hword _).2 ⟨a, rfl⟩⟩⟩

theorem isNumber_iff : v.IsNumber ↔ ∃ x, v.toDouble? = some x := by
  unfold Json.IsNumber
  cases v with
  | int n => simp [Json.toDouble?]
  | float x => simp [Json.toDouble?]
  | null | bool | str | arr | obj => simp [Json.toDouble?]

theorem is_number : Is given Json.IsNumber ↔ ∃ x, given.bind Json.toDouble? = some x := by
  unfold Is
  cases given with
  | none => simp
  | some v => simp [isNumber_iff]

theorem leftOutOrIs_number {d : Double} : LeftOutOrIs given Json.IsNumber ↔
    ∃ x, (given = none ∧ x = d) ∨ given.bind Json.toDouble? = some x := by
  unfold LeftOutOrIs
  cases given with
  | none => simp
  | some v => simp [isNumber_iff]

theorem isBool_iff (v : Json) : v.IsBool ↔ ∃ b, v = .bool b := Iff.rfl

theorem isText_iff (v : Json) : v.IsText ↔ ∃ s, v = .str s := Iff.rfl

theorem lt_twoPow8_iff (n : Nat) : n < 2 ^ 8 ↔ ∃ w : UInt8, n = w.toNat :=
  ⟨fun h => ⟨.ofNat n, (UInt8.toNat_ofNat_of_lt' h).symm⟩, fun ⟨w, h⟩ => h ▸ w.toNat_lt⟩

theorem lt_twoPow16_iff (n : Nat) : n < 2 ^ 16 ↔ ∃ w : UInt16, n = w.toNat :=
  ⟨fun h => ⟨.ofNat n, (UInt16.toNat_ofNat_of_lt' h).symm⟩, fun ⟨w, h⟩ => h ▸ w.toNat_lt⟩

theorem lt_twoPow32_iff (n : Nat) : n < 2 ^ 32 ↔ ∃ w : UInt32, n = w.toNat :=
  ⟨fun h => ⟨.ofNat n, (UInt32.toNat_ofNat_of_lt' h).symm⟩, fun ⟨w, h⟩ => h ▸ w.toNat_lt⟩

theorem lt_twoPow64_iff (n : Nat) : n < 2 ^ 64 ↔ ∃ w : UInt64, n = w.toNat :=
  ⟨fun h => ⟨.ofNat n, (UInt64.toNat_ofNat_of_lt' h).symm⟩, fun ⟨w, h⟩ => h ▸ w.toNat_lt⟩

theorem isWord_iff {bits : Nat} {toNat : α → Nat} (hword : ∀ n, n < 2 ^ bits ↔ ∃ a, n = toNat a) (v : Json) :
    v.IsWord bits ↔ ∃ a, v = .int (toNat a) := by
  unfold Json.IsWord
  apply Iff.intro
  · intro h
    obtain ⟨n, rfl, hn⟩ := h
    obtain ⟨a, rfl⟩ := (hword n).1 hn
    exact ⟨a, rfl⟩
  · intro h
    obtain ⟨a, rfl⟩ := h
    exact ⟨toNat a, rfl, (hword _).2 ⟨a, rfl⟩⟩

theorem ofJson_eq_text {s : String} : WireDatarate.ofJson (given.getD .null) = .text s ↔ given = some (.str s) := by
  cases given with
  | none => simp [WireDatarate.ofJson]
  | some v => cases v <;> simp [WireDatarate.ofJson]

theorem ofJson_eq_number {x : Double} :
    WireDatarate.ofJson (given.getD .null) = .number x ↔ given.bind Json.toDouble? = some x := by
  cases given with
  | none => simp [WireDatarate.ofJson]
  | some v => cases v <;> simp [WireDatarate.ofJson, Json.toDouble?]

end Fields

/-! ## Objects -/

namespace Downlink

variable {v : Json} {r : Request} {policy : SchedulePolicy} {p : TransmitPacket} {ms : List (String × Json)}

theorem isSet_iff (h : Holds v r) (f : ScheduleField) : r.isSet f = true ↔ Sets v f := by
  cases f with
  | imme =>
    change r.imme = true ↔ v.get? "imme" = some (.bool true)
    rcases h.imme with ⟨hnone, hfalse⟩ | hgiven
    · simp [hnone, hfalse]
    · simp [hgiven]
  | tmst =>
    change r.tmst.isSome = true ↔ ∃ x, v.get? "tmst" = some x ∧ x ≠ .null
    rcases h.tmst with ⟨hnone, hgiven | hgiven⟩ | ⟨n, hn, hgiven⟩
    · simp [Option.map_eq_none_iff.1 hnone, hgiven]
    · simp [Option.map_eq_none_iff.1 hnone, hgiven]
    · obtain ⟨w, hw, -⟩ := Option.map_eq_some_iff.1 hn
      simp [hw, hgiven]
  | tmms =>
    change r.tmms.isSome = true ↔ ∃ x, v.get? "tmms" = some x ∧ x ≠ .null
    rcases h.tmms with ⟨hnone, hgiven | hgiven⟩ | ⟨n, hn, hgiven⟩
    · simp [Option.map_eq_none_iff.1 hnone, hgiven]
    · simp [Option.map_eq_none_iff.1 hnone, hgiven]
    · obtain ⟨w, hw, -⟩ := Option.map_eq_some_iff.1 hn
      simp [hw, hgiven]

/-- no coding rate has the empty spelling, so one that is spelled is given -/
theorem codr_given {c : CodingRate} (h : Holds v r) (hcodr : r.codr ∈ c.spellings) :
    v.get? "codr" = some (.str r.codr) := by
  rcases h.codr with ⟨-, hempty⟩ | hgiven
  · rw [hempty] at hcodr
    cases c <;> exact absurd hcodr (by decide)
  · exact hgiven

theorem carries_modulation {m : TransmitModulation} (h : Holds v r) (hm : r.modulation = .ok m) :
    CarriesModulation v m := by
  have hdatr := h.datr
  rcases modulation_eq_ok.1 hm with ⟨s, rfl, hmodu, hs⟩ | ⟨s, rfl, hmodu, hs⟩
  · obtain ⟨⟨word, hword, hspells⟩, hcodr, hipol⟩ := lora_eq_ok.1 hs
    rw [hdatr, ofJson_eq_text] at hword
    refine ⟨hmodu ▸ h.modu, ⟨word, hword, hspells⟩, ⟨r.codr, hcodr, codr_given h hcodr⟩, ?_⟩
    rw [← hipol]
    exact h.ipol
  · obtain ⟨x, hx, hbitrate, hdeviation⟩ := fsk_eq_ok.1 hs
    rw [hdatr, ofJson_eq_number] at hx
    exact ⟨hmodu ▸ h.modu, ⟨x, hx, hbitrate⟩, r.fdev, h.fdev, hdeviation⟩

theorem carries_packet {m : TransmitModulation} {bytes : List UInt8} (h : Holds v r) (hm : r.modulation = .ok m)
    (hdata : r.data = Base64.encode bytes) : Carries v (r.packet m bytes) where
  immediate := h.imme
  counter := by
    refine ⟨_, h.tmst, ?_⟩
    change (r.tmst.getD 0).toNat = _
    cases r.tmst <;> rfl
  gpsTime := h.tmms
  frequency := ⟨r.freq, h.freq, rfl⟩
  power := h.powe
  rfChain := h.rfch
  noCrc := h.ncrc
  preambleLength := h.prea
  modulation := carries_modulation h hm
  payload := hdata ▸ h.data

theorem wellTyped_of_holds (h : Holds v r) : WellTyped v where
  imme := (leftOutOrIs_iff isBool_iff).2 ⟨r.imme, h.imme⟩
  ncrc := (leftOutOrIs_iff isBool_iff).2 ⟨r.ncrc, h.ncrc⟩
  ipol := (leftOutOrIs_iff isBool_iff).2 ⟨r.ipol, h.ipol⟩
  tmst := (leftOutOrIs_word lt_twoPow32_iff).2 ⟨r.tmst, h.tmst⟩
  tmms := (leftOutOrIs_word lt_twoPow64_iff).2 ⟨r.tmms, h.tmms⟩
  freq := is_number.2 ⟨r.freq, h.freq⟩
  rfch := (is_iff (isWord_iff lt_twoPow8_iff)).2 ⟨r.rfch, h.rfch⟩
  powe := (leftOutOrIs_iff (isWord_iff lt_twoPow8_iff)).2 ⟨r.powe, h.powe⟩
  prea := (leftOutOrIs_iff (isWord_iff lt_twoPow16_iff)).2 ⟨r.prea, h.prea⟩
  fdev := leftOutOrIs_number.2 ⟨r.fdev, h.fdev⟩
  modu := (is_iff isText_iff).2 ⟨r.modu, h.modu⟩
  data := (is_iff isText_iff).2 ⟨r.data, h.data⟩
  codr := (leftOutOrIs_iff isText_iff).2 ⟨r.codr, h.codr⟩

/-- **An object holds a request if its fields are of their kinds**, whatever else is wrong with it. -/
theorem wellTyped_iff : WellTyped v ↔ ∃ r, Holds v r := by
  apply Iff.intro
  · intro h
    obtain ⟨imme, himme⟩ := (leftOutOrIs_iff isBool_iff).1 h.imme
    obtain ⟨ncrc, hncrc⟩ := (leftOutOrIs_iff isBool_iff).1 h.ncrc
    obtain ⟨ipol, hipol⟩ := (leftOutOrIs_iff isBool_iff).1 h.ipol
    obtain ⟨tmst, htmst⟩ := (leftOutOrIs_word lt_twoPow32_iff).1 h.tmst
    obtain ⟨tmms, htmms⟩ := (leftOutOrIs_word lt_twoPow64_iff).1 h.tmms
    obtain ⟨freq, hfreq⟩ := is_number.1 h.freq
    obtain ⟨rfch, hrfch⟩ := (is_iff (isWord_iff lt_twoPow8_iff)).1 h.rfch
    obtain ⟨powe, hpowe⟩ := (leftOutOrIs_iff (isWord_iff lt_twoPow8_iff)).1 h.powe
    obtain ⟨prea, hprea⟩ := (leftOutOrIs_iff (isWord_iff lt_twoPow16_iff)).1 h.prea
    obtain ⟨fdev, hfdev⟩ := leftOutOrIs_number.1 h.fdev
    obtain ⟨modu, hmodu⟩ := (is_iff isText_iff).1 h.modu
    obtain ⟨data, hdata⟩ := (is_iff isText_iff).1 h.data
    obtain ⟨codr, hcodr⟩ := (leftOutOrIs_iff isText_iff).1 h.codr
    let datr : WireDatarate := .ofJson ((v.get? "datr").getD .null)
    exact ⟨⟨imme, tmst, tmms, ncrc, freq, rfch, powe, modu, datr, codr, ipol, prea, fdev, data⟩,
      himme, htmst, htmms, hncrc, hfreq, hrfch, hpowe, hmodu, rfl, hcodr, hipol, hprea, hfdev, hdata⟩
  · intro h
    obtain ⟨r, hr⟩ := h
    exact wellTyped_of_holds hr

theorem Acceptable.wellTyped {fits : Nat → Prop} (h : Acceptable fits policy v) : WellTyped v := { h with }

theorem acceptable_of_holds {m : TransmitModulation} {bytes : List UInt8} (h : Holds v r) (hm : r.modulation = .ok m)
    (hdata : r.data = Base64.encode bytes) (hschedule : policy = .exclusive → ∃! f, r.isSet f = true) :
    Acceptable (· ≤ 4294967295) policy v :=
  { wellTyped_of_holds h with
    modulation := by
      have hcarries := carries_modulation h hm
      cases m with
      | lora s =>
        obtain ⟨hmodu, ⟨word, hword, hspells⟩, ⟨t, ht, hcodr⟩, -⟩ := hcarries
        have hlt := s.spreadingFactor.toNat_lt
        exact Or.inl ⟨hmodu, ⟨word, _, _, hword, hspells, Nat.le_of_lt_succ hlt⟩, t, _, hcodr, ht⟩
      | fsk s =>
        obtain ⟨hmodu, ⟨x, hx, -⟩, -⟩ := hcarries
        exact Or.inr ⟨hmodu, is_number.2 ⟨x, hx⟩⟩
    payload := ⟨bytes, hdata ▸ h.data⟩
    schedule := by
      intro hpolicy
      simpa only [isSet_iff h] using hschedule hpolicy }

theorem holds_of_acceptable {fits : Nat → Prop} (h : Acceptable fits policy v) : ∃ r, Holds v r :=
  wellTyped_iff.1 h.wellTyped

theorem modulation_of_acceptable (h : Acceptable (· ≤ 4294967295) policy v) (hr : Holds v r) :
    ∃ m, r.modulation = .ok m := by
  have hdatr := hr.datr
  rcases h.modulation with hlora | hfsk
  · obtain ⟨word, factor, b, hword, hspells, hfits⟩ := hlora.datr
    obtain ⟨s, c, hs, hmem⟩ := hlora.codr
    have hmodu : r.modu = "LORA" := by simpa [hr.modu] using hlora.modu
    have hcodr : r.codr = s := by
      rcases hr.codr with ⟨hnone, -⟩ | hgiven
      · rw [hs] at hnone
        cases hnone
      · simpa [hs, eq_comm] using hgiven
    obtain ⟨w, rfl⟩ := (lt_twoPow32_iff factor).1 (Nat.lt_succ_of_le hfits)
    rw [← ofJson_eq_text, ← hdatr] at hword
    exact ⟨.lora ⟨w, b, c, r.ipol⟩, modulation_eq_ok.2
      (Or.inl ⟨_, rfl, hmodu, lora_eq_ok.2 ⟨⟨word, hword, hspells⟩, hcodr ▸ hmem, rfl⟩⟩)⟩
  · obtain ⟨x, hx⟩ := is_number.1 hfsk.datr
    have hmodu : r.modu = "FSK" := by simpa [hr.modu] using hfsk.modu
    rw [← ofJson_eq_number, ← hdatr] at hx
    exact ⟨.fsk ⟨_, _⟩, modulation_eq_ok.2 (Or.inr ⟨_, rfl, hmodu, fsk_eq_ok.2 ⟨x, hx, rfl, rfl⟩⟩)⟩

theorem request_of_acceptable (h : Acceptable (· ≤ 4294967295) policy v) :
    ∃ r m bytes, Holds v r ∧ r.decode policy = .ok (r.packet m bytes) := by
  obtain ⟨r, hr⟩ := holds_of_acceptable h
  obtain ⟨m, hm⟩ := modulation_of_acceptable h hr
  obtain ⟨bytes, hbytes⟩ := h.payload
  have hdata : r.data = Base64.encode bytes := by simpa [hr.data] using hbytes
  have hschedule : policy = .exclusive → ∃! f, r.isSet f = true := by
    intro hpolicy
    simpa only [isSet_iff hr] using h.schedule hpolicy
  exact ⟨r, m, bytes, hr, decode_eq_ok_iff.2 ⟨hschedule, m, bytes, hm, hdata, rfl⟩⟩

theorem decode_object (h : (names ms).Nodup) :
    decode policy (.obj ms) = .ok p ↔ ∃ r, Holds (.obj ms) r ∧ r.decode policy = .ok p := by
  unfold decode
  rw [Outcome.bind_eq_ok]
  refine exists_congr fun r => ?_
  rw [Outcome.mapError_eq_ok, Request.ofJson_object h]

/-- **Exactly the acceptable objects are decoded**, and the packet carries what the object gives. -/
theorem decode_accepts (policy : SchedulePolicy) (ms : List (String × Json)) :
    ((∃ p, decode policy (.ofMembers ms) = .ok p) ↔ Acceptable (· ≤ 4294967295) policy (.ofMembers ms)) ∧
    ∀ p, decode policy (.ofMembers ms) = .ok p → Carries (.ofMembers ms) p := by
  have hnodup : (names (sortMembers ms)).Nodup := (sortMembers_sorted ms).nodup
  rw [ofMembers_eq]
  refine ⟨?_, ?_⟩
  · apply Iff.intro
    · intro hdecode
      obtain ⟨p, hp⟩ := hdecode
      obtain ⟨r, hr, hp⟩ := (decode_object hnodup).1 hp
      obtain ⟨hschedule, m, bytes, hm, hdata, -⟩ := decode_eq_ok_iff.1 hp
      exact acceptable_of_holds hr hm hdata hschedule
    · intro h
      obtain ⟨r, hr⟩ := holds_of_acceptable h
      obtain ⟨m, hm⟩ := modulation_of_acceptable h hr
      obtain ⟨bytes, hbytes⟩ := h.payload
      have hdata : r.data = Base64.encode bytes := by simpa [hr.data] using hbytes
      have hschedule : policy = .exclusive → ∃! f, r.isSet f = true := by
        intro hpolicy
        simpa only [isSet_iff hr] using h.schedule hpolicy
      exact ⟨_, (decode_object hnodup).2 ⟨r, hr, decode_eq_ok_iff.2 ⟨hschedule, m, bytes, hm, hdata, rfl⟩⟩⟩
  · intro p hp
    obtain ⟨r, hr, hp⟩ := (decode_object hnodup).1 hp
    obtain ⟨-, m, bytes, hm, hdata, rfl⟩ := decode_eq_ok_iff.1 hp
    exact carries_packet hr hm hdata

/-- a request with no more than its modulation needs, in the order of the keys -/
def briefRequest (modu : String) (datr : Json) : List (String × Json) :=
  [("codr", .str "4/5"), ("data", .str ""), ("datr", datr), ("freq", .int 868), ("modu", .str modu), ("rfch", .int 0)]

theorem acceptable_brief {fits : Nat → Prop} {modu : String} {datr : Json}
    (h : SpellsLora fits (.obj (briefRequest modu datr)) ∨ SpellsFsk (.obj (briefRequest modu datr))) :
    Acceptable fits .precedence (.obj (briefRequest modu datr)) where
  imme := Or.inl (by rfl)
  ncrc := Or.inl (by rfl)
  ipol := Or.inl (by rfl)
  tmst := Or.inl (by rfl)
  tmms := Or.inl (by rfl)
  freq := ⟨.int 868, by rfl, Or.inl ⟨868, rfl⟩⟩
  rfch := ⟨.int 0, by rfl, 0, rfl, by decide⟩
  powe := Or.inl (by rfl)
  prea := Or.inl (by rfl)
  fdev := Or.inl (by rfl)
  modu := ⟨.str modu, by rfl, modu, rfl⟩
  data := ⟨.str "", by rfl, "", rfl⟩
  codr := Or.inr ⟨.str "4/5", by rfl, "4/5", rfl⟩
  modulation := h
  payload := ⟨[], by rfl⟩
  schedule := nofun

theorem brief_accepted : ∃ p, decode .precedence (.ofMembers (briefRequest "FSK" (.int 50000))) = .ok p := by
  have hfsk : SpellsFsk (.obj (briefRequest "FSK" (.int 50000))) := ⟨by rfl, .int 50000, by rfl, Or.inl ⟨_, rfl⟩⟩
  have hsorted : Json.ofMembers (briefRequest "FSK" (.int 50000)) = .obj (briefRequest "FSK" (.int 50000)) := by rfl
  refine (decode_accepts .precedence (briefRequest "FSK" (.int 50000))).1.2 ?_
  rw [hsorted]
  exact acceptable_brief (Or.inr hfsk)

/-- A spreading factor of more than 32 bits: all that is asked of the object holds, but for the bound, and it is
refused. -/
theorem factorTooGreat_refused :
    ¬∀ policy ms, (∃ p, decode policy (.ofMembers ms) = .ok p) ↔ Acceptable (fun _ => True) policy (.ofMembers ms) := by
  intro h
  have hspells : Datarate.Spells "SF4294967296BW125" 4294967296 .khz125 :=
    ⟨Nat.toDigits 10 4294967296, Nat.toDigits 10 125, [], by rfl, isNumeral_toDigits _, Decimal.ofDigits_toDigits _,
      isNumeral_toDigits _, Decimal.ofDigits_toDigits _, Or.inl rfl⟩
  have hlora : SpellsLora (fun _ => True) (.obj (briefRequest "LORA" (.str "SF4294967296BW125"))) :=
    ⟨by rfl, ⟨_, _, _, by rfl, hspells, trivial⟩, "4/5", .fourFifths, by rfl, by decide⟩
  have hsorted : Json.ofMembers (briefRequest "LORA" (.str "SF4294967296BW125")) =
      .obj (briefRequest "LORA" (.str "SF4294967296BW125")) := by rfl
  have hrefused : decode .precedence (.ofMembers (briefRequest "LORA" (.str "SF4294967296BW125"))) =
      .error (.datarateFormat "SF4294967296BW125") := by rfl
  obtain ⟨p, hp⟩ := (h .precedence (briefRequest "LORA" (.str "SF4294967296BW125"))).2
    (hsorted ▸ acceptable_brief (Or.inl hlora))
  rw [hrefused] at hp
  cases hp

end Downlink

end PacketForwarder
