/-
Which entries of a channel plan are channels, and which. `Acceptable` lists what has to hold of the five fields of an
object, stated over the object alone; `Carries` says that a channel holds what the object gives and nothing else. The
length of the preamble has two names, and an object may use one of them.

Results:
- `ofJson_iff_holds`: an object holds an entry exactly if its fields are of their kinds and the preamble is named once.
- `entry_accepted`: an object is accepted exactly if it is acceptable, and the channel carries what it gives. Neither
  changes with the name that is used for the preamble, in an object or in its text; with both names it is refused,
  wherever they stand.
- `aliasedEntry_accepted`: an entry with the second name of the preamble, and entries with both.

The way there: the entry by the fields of the object (`Holds`), then the channel of the entry (`validate_eq_ok_iff`).
-/
import PacketForwarder.Channel
import PacketForwarder.Proofs.Downlink.Acceptance

namespace PacketForwarder.ChannelEntry

open Json Request

variable {v : Json} {e : ChannelEntry} {ch : Channel} {ms l : List (String × Json)} {text text' : Bytes} {k : Key}

/-! ## Names -/

theorem unambiguous : schema.Unambiguous := by
  intro k k' name hk hk'
  cases k <;> cases k' <;> first
    | rfl
    | exact absurd hk' (by revert name; decide)

theorem unchosen : schema.Unchosen := by
  intro k names
  cases k <;> exact nofun

/-- the two names of the length of the preamble, exchanged -/
def respelling : Equiv.Perm String := Equiv.swap "preamble_length" "PreambleLength"

theorem key?_long : schema.key? "preamble_length" = some Key.preambleLength := rfl

theorem key?_short : schema.key? "PreambleLength" = some Key.preambleLength := rfl

theorem respells : schema.Respells respelling := Schema.respells_swap (key?_long.trans key?_short.symm)

/-- the length of the preamble, under one of its names -/
def preambleGiven (v : Json) : Option Json := (v.get? "preamble_length").or (v.get? "PreambleLength")

theorem given_preamble (h : schema.Distinct ms) : schema.given ms Key.preambleLength = preambleGiven (.obj ms) := by
  refine (unambiguous.given_eq h).trans ?_
  change ["preamble_length", "PreambleLength"].findSome? (fun name => ms.lookup name) =
    (ms.lookup "preamble_length").or (ms.lookup "PreambleLength")
  rw [List.findSome?_cons, List.findSome?_singleton]
  cases ms.lookup "preamble_length" <;> rfl

theorem given_eq (h : schema.Distinct ms) (hk : k ≠ .preambleLength) :
    schema.given ms k = (Json.obj ms).get? k.name := by
  refine (unambiguous.given_eq h).trans ?_
  cases k with
  | preambleLength => exact absurd rfl hk
  | freq | modulation | bandwidth | spreadFactor => exact List.findSome?_singleton

/-- members that give no field twice have one name of the preamble at most -/
theorem not_both (h : schema.Distinct ms) (hlong : "preamble_length" ∈ names ms) : "PreambleLength" ∉ names ms := by
  intro hshort
  obtain ⟨a, ha⟩ := mem_names.1 hlong
  obtain ⟨b, hb⟩ := mem_names.1 hshort
  exact absurd (h.name_eq ha hb key?_long key?_short) (show "preamble_length" ≠ "PreambleLength" by decide)

theorem distinct_iff (hms : (names ms).Nodup) : schema.Distinct ms ↔
    (Json.obj ms).get? "preamble_length" = none ∨ (Json.obj ms).get? "PreambleLength" = none := by
  change _ ↔ ms.lookup "preamble_length" = none ∨ ms.lookup "PreambleLength" = none
  rw [lookup_eq_none, lookup_eq_none]
  apply Iff.intro
  · intro h
    by_cases hlong : "preamble_length" ∈ names ms
    · exact Or.inr (not_both h hlong)
    · exact Or.inl hlong
  · intro h
    refine (unambiguous.distinct_iff hms).2 fun k name hname name' hname' hmem hmem' => ?_
    cases k with
    | freq | modulation | bandwidth | spreadFactor =>
      exact (List.mem_singleton.1 hname).trans (List.mem_singleton.1 hname').symm
    | preambleLength =>
      rcases List.mem_pair.1 hname with rfl | rfl <;> rcases List.mem_pair.1 hname' with rfl | rfl
      · rfl
      · exact absurd h (not_or.2 ⟨not_not_intro hmem, not_not_intro hmem'⟩)
      · exact absurd h (not_or.2 ⟨not_not_intro hmem', not_not_intro hmem⟩)
      · rfl

/-! ## Entries -/

/-- **What an object says of each field of an entry.** -/
structure Holds (v : Json) (e : ChannelEntry) : Prop where
  freq : v.get? "freq" = some (.int e.freq.toNat)
  modulation : v.get? "modulation" = some (.str e.modulation)
  bandwidth : LeftOutOr (v.get? "bandwidth") (e.bandwidth = 0) (.int e.bandwidth.toNat)
  spreadFactor : v.get? "spread_factor" = some (.int e.spreadFactor.toNat)
  namedOnce : v.get? "preamble_length" = none ∨ v.get? "PreambleLength" = none
  preambleLength : LeftOutOr (preambleGiven v) (e.preambleLength = 0) (.int e.preambleLength.toNat)

def toRecord (e : ChannelEntry) : schema.Record := fun k =>
  match k with
  | .freq => e.freq.toBitVec
  | .modulation => e.modulation
  | .bandwidth => e.bandwidth.toBitVec
  | .spreadFactor => e.spreadFactor.toBitVec
  | .preambleLength => e.preambleLength.toBitVec

theorem field_iff (h : schema.Distinct ms) (hk : k ≠ .preambleLength) {x : k.kind.Carrier} :
    schema.field k (schema.given ms k) = .ok x ↔ FieldHolds k.kind k.default ((Json.obj ms).get? k.name) x :=
  given_eq h hk ▸ Schema.field_eq_ok

theorem preamble_iff (h : schema.Distinct ms) {x : Key.preambleLength.kind.Carrier} :
    schema.field Key.preambleLength (schema.given ms Key.preambleLength) = .ok x ↔
      FieldHolds Key.preambleLength.kind Key.preambleLength.default (preambleGiven (.obj ms)) x :=
  given_preamble h ▸ Schema.field_eq_ok

/-- an object that gives no field twice holds the entry of its fields -/
theorem fields_iff (h : schema.Distinct ms) :
    (∀ k, schema.field k (schema.given ms k) = .ok (toRecord e k)) ↔
      (Json.obj ms).get? "freq" = some (.int e.freq.toNat) ∧
      (Json.obj ms).get? "modulation" = some (.str e.modulation) ∧
      LeftOutOr ((Json.obj ms).get? "bandwidth") (e.bandwidth = 0) (.int e.bandwidth.toNat) ∧
      (Json.obj ms).get? "spread_factor" = some (.int e.spreadFactor.toNat) ∧
      LeftOutOr (preambleGiven (.obj ms)) (e.preambleLength = 0) (.int e.preambleLength.toNat) := by
  have hfreq := (field_iff h (k := .freq) nofun (x := e.freq.toBitVec)).trans
    (mandatory_field fun _ => Kind.natural_eq_ok)
  have hmodulation := (field_iff h (k := .modulation) nofun (x := e.modulation)).trans
    (mandatory_field fun _ => Kind.text_eq_ok)
  have hbandwidth := (field_iff h (k := .bandwidth) nofun (x := e.bandwidth.toBitVec)).trans
    (leftOut_field fun _ => Kind.natural_eq_ok)
  have hfactor := (field_iff h (k := .spreadFactor) nofun (x := e.spreadFactor.toBitVec)).trans
    (mandatory_field fun _ => Kind.natural_eq_ok)
  have hpreamble := (preamble_iff h (x := e.preambleLength.toBitVec)).trans
    (leftOut_field fun _ => Kind.natural_eq_ok)
  have hwide : e.bandwidth.toBitVec = 0 ↔ e.bandwidth = 0 := UInt32.toBitVec_inj
  have hlong : e.preambleLength.toBitVec = 0 ↔ e.preambleLength = 0 := UInt16.toBitVec_inj
  rw [LeftOutOr, hwide] at hbandwidth
  rw [LeftOutOr, hlong] at hpreamble
  apply Iff.intro
  · intro hall
    exact ⟨hfreq.1 (hall Key.freq), hmodulation.1 (hall Key.modulation), hbandwidth.1 (hall Key.bandwidth),
      hfactor.1 (hall Key.spreadFactor), hpreamble.1 (hall Key.preambleLength)⟩
  · rintro ⟨hf, hm, hb, hs, hp⟩ k
    cases k with
    | freq => exact hfreq.2 hf
    | modulation => exact hmodulation.2 hm
    | bandwidth => exact hbandwidth.2 hb
    | spreadFactor => exact hfactor.2 hs
    | preambleLength => exact hpreamble.2 hp

/-- **An object holds the entry that its fields give**, each by its kind, where the preamble is named once. -/
theorem ofJson_iff_holds : ofJson (.ofMembers ms) = .ok e ↔ Holds (.ofMembers ms) e := by
  have hnodup := (sortMembers_sorted ms).nodup
  rw [ofJson, Outcome.map_eq_ok, ofMembers_eq]
  apply Iff.intro
  · rintro ⟨r, hr, rfl⟩
    obtain ⟨hdistinct, hfields⟩ := Schema.ofJson_obj.1 hr
    have hrecord : toRecord (ofRecord r) = r := by
      funext k
      cases k <;> rfl
    obtain ⟨hf, hm, hb, hs, hp⟩ := (fields_iff hdistinct).1 (hrecord ▸ hfields)
    exact ⟨hf, hm, hb, hs, (distinct_iff hnodup).1 hdistinct, hp⟩
  · intro h
    have hdistinct := (distinct_iff hnodup).2 h.namedOnce
    have hfields := (fields_iff hdistinct).2 ⟨h.freq, h.modulation, h.bandwidth, h.spreadFactor, h.preambleLength⟩
    exact ⟨toRecord e, Schema.ofJson_obj.2 ⟨hdistinct, hfields⟩, rfl⟩

/-! ## Channels -/

def Describes (e : ChannelEntry) : Channel → Prop
  | .lora frequency bandwidth factor preamble =>
    e.modulation = "LORA" ∧ e.freq = frequency ∧ e.bandwidth.toNat = bandwidth.hertz ∧
      (e.spreadFactor.toNat = factor.toNat ∧ 5 ≤ factor.toNat ∧ factor.toNat ≤ 12) ∧ e.preambleLength = preamble
  | .fsk frequency bitrate preamble =>
    e.modulation = "FSK" ∧ e.freq = frequency ∧ (e.spreadFactor = bitrate ∧ bitrate ≠ 0) ∧ e.preambleLength = preamble

theorem describes_lora (hname : e.modulation = "LORA") : e.Describes ch ↔ ∃ b : Bandwidth, e.bandwidth.toNat = b.hertz ∧
    (5 ≤ e.spreadFactor.toNat ∧ e.spreadFactor.toNat ≤ 12) ∧
      ch = .lora e.freq b (.ofNat e.spreadFactor.toNat) e.preambleLength := by
  apply Iff.intro
  · intro h
    cases ch with
    | lora frequency b factor preamble =>
      obtain ⟨-, rfl, hb, ⟨hfactor, hrange⟩, rfl⟩ := h
      refine ⟨b, hb, hfactor ▸ hrange, ?_⟩
      rw [hfactor, UInt8.ofNat_toNat]
    | fsk frequency bitrate preamble =>
      have hother := h.1
      rw [hname] at hother
      exact absurd hother (by decide)
  · rintro ⟨b, hb, hrange, rfl⟩
    have hfactor : (UInt8.ofNat e.spreadFactor.toNat).toNat = e.spreadFactor.toNat :=
      UInt8.toNat_ofNat_of_lt' (hrange.2.trans_lt (by decide))
    exact ⟨hname, rfl, hb, ⟨hfactor.symm, hfactor.symm ▸ hrange⟩, rfl⟩

theorem describes_fsk (hname : e.modulation = "FSK") : e.Describes ch ↔
    e.spreadFactor ≠ 0 ∧ ch = .fsk e.freq e.spreadFactor e.preambleLength := by
  apply Iff.intro
  · intro h
    cases ch with
    | lora frequency b factor preamble =>
      have hother := h.1
      rw [hname] at hother
      exact absurd hother (by decide)
    | fsk frequency bitrate preamble =>
      obtain ⟨-, rfl, ⟨rfl, hne⟩, rfl⟩ := h
      exact ⟨hne, rfl⟩
  · rintro ⟨hne, rfl⟩
    exact ⟨hname, rfl, ⟨rfl, hne⟩, rfl⟩

theorem validate_lora (hfreq : e.freq ≠ 0) (hname : e.modulation = "LORA") : e.validate = .ok ch ↔ e.Describes ch := by
  have hmodulation : Modulation.ofWireName? e.modulation = some .lora := Modulation.ofWireName?_eq_some.2 hname
  rw [describes_lora hname, validate, if_neg hfreq, hmodulation]
  apply Iff.intro
  · intro h
    cases hb : Bandwidth.ofHertz? e.bandwidth.toNat with
    | none =>
      rw [hb] at h
      cases h
    | some b =>
      simp only [hb] at h
      split_ifs at h with hrange
      exact ⟨b, Bandwidth.ofHertz?_eq_some.1 hb, hrange, (Except.ok.inj h).symm⟩
  · rintro ⟨b, hb, hrange, rfl⟩
    rw [Bandwidth.ofHertz?_eq_some.2 hb]
    exact if_pos hrange

theorem validate_fsk (hfreq : e.freq ≠ 0) (hname : e.modulation = "FSK") : e.validate = .ok ch ↔ e.Describes ch := by
  have hmodulation : Modulation.ofWireName? e.modulation = some .fsk := Modulation.ofWireName?_eq_some.2 hname
  rw [describes_fsk hname, validate, if_neg hfreq, hmodulation]
  dsimp only
  split_ifs with hrate
  · exact iff_of_false nofun fun h => h.1 hrate
  · rw [and_iff_right hrate, Except.ok.injEq, eq_comm]

/-- **The channel of an entry** is the one that it describes, if its frequency is not zero. -/
theorem validate_eq_ok_iff : e.validate = .ok ch ↔ e.freq ≠ 0 ∧ e.Describes ch := by
  by_cases hfreq : e.freq = 0
  · rw [validate, if_pos hfreq]
    exact iff_of_false nofun fun h => h.1 hfreq
  rw [and_iff_right hfreq]
  cases hmodulation : Modulation.ofWireName? e.modulation with
  | none =>
    rw [validate, if_neg hfreq, hmodulation]
    refine iff_of_false nofun fun h => ?_
    cases ch with
    | lora frequency b factor preamble | fsk frequency bitrate preamble =>
      rw [h.1] at hmodulation
      exact absurd hmodulation (by decide)
  | some m =>
    have hname := Modulation.ofWireName?_eq_some.1 hmodulation
    cases m with
    | lora => exact validate_lora hfreq hname
    | fsk => exact validate_fsk hfreq hname

/-! ## Objects -/

/-- LoRa: a bandwidth of the table, and a spreading factor from 5 to 12 -/
structure SetsLora (v : Json) : Prop where
  modulation : v.get? "modulation" = some (.str "LORA")
  bandwidth : ∃ b : Bandwidth, v.get? "bandwidth" = some (.int b.hertz)
  factor : ∃ n : Nat, v.get? "spread_factor" = some (.int n) ∧ 5 ≤ n ∧ n ≤ 12

/-- FSK: a bitrate, in the place of the spreading factor -/
structure SetsFsk (v : Json) : Prop where
  modulation : v.get? "modulation" = some (.str "FSK")
  bitrate : ∃ n : Nat, v.get? "spread_factor" = some (.int n) ∧ 0 < n

/-- **What has to hold of an object.** -/
structure Acceptable (v : Json) : Prop where
  freq : ∃ n : Nat, v.get? "freq" = some (.int n) ∧ 0 < n ∧ n < 2 ^ 32
  modulation : Is (v.get? "modulation") Json.IsText
  bandwidth : LeftOutOrIs (v.get? "bandwidth") (Json.IsWord 32)
  spreadFactor : Is (v.get? "spread_factor") (Json.IsWord 32)
  namedOnce : v.get? "preamble_length" = none ∨ v.get? "PreambleLength" = none
  preambleLength : LeftOutOrIs (preambleGiven v) (Json.IsWord 16)
  settings : SetsLora v ∨ SetsFsk v

/-- **A channel holds what the object gives**, and a preamble of length zero if none is given. The bandwidth counts for
LoRa alone. -/
def Carries (v : Json) : Channel → Prop
  | .lora frequency bandwidth factor preamble =>
    v.get? "modulation" = some (.str "LORA") ∧ v.get? "freq" = some (.int frequency.toNat) ∧
      v.get? "bandwidth" = some (.int bandwidth.hertz) ∧ v.get? "spread_factor" = some (.int factor.toNat) ∧
      LeftOutOr (preambleGiven v) (preamble = 0) (.int preamble.toNat)
  | .fsk frequency bitrate preamble =>
    v.get? "modulation" = some (.str "FSK") ∧ v.get? "freq" = some (.int frequency.toNat) ∧
      v.get? "spread_factor" = some (.int bitrate.toNat) ∧
      LeftOutOr (preambleGiven v) (preamble = 0) (.int preamble.toNat)

def Accepts (read : Except Fault ChannelEntry) (ch : Channel) : Prop := ∃ e, read = .ok e ∧ e.validate = .ok ch

/-- a bandwidth that is in the table was given -/
theorem bandwidth_given {given : Option Json} {w : UInt32} {b : Bandwidth}
    (h : LeftOutOr given (w = 0) (.int w.toNat)) (hb : w.toNat = b.hertz) : given = some (.int b.hertz) := by
  rcases h with ⟨-, rfl⟩ | hgiven
  · cases b <;> exact absurd hb (by decide)
  · rw [hgiven, hb]

theorem carries_of_holds (h : Holds v e) (hch : e.Describes ch) : Carries v ch := by
  cases ch with
  | lora frequency b factor preamble =>
    obtain ⟨hname, rfl, hb, ⟨hfactor, -⟩, rfl⟩ := hch
    exact ⟨hname ▸ h.modulation, h.freq, bandwidth_given h.bandwidth hb, hfactor ▸ h.spreadFactor, h.preambleLength⟩
  | fsk frequency bitrate preamble =>
    obtain ⟨hname, rfl, ⟨rfl, -⟩, rfl⟩ := hch
    exact ⟨hname ▸ h.modulation, h.freq, h.spreadFactor, h.preambleLength⟩

theorem pos_of_ne_zero {w : UInt32} (h : w ≠ 0) : 0 < w.toNat :=
  Nat.pos_of_ne_zero fun hzero => h (UInt32.toNat_inj.1 hzero)

theorem acceptable_of_holds (h : Holds v e) (hfreq : e.freq ≠ 0) (hch : e.Describes ch) : Acceptable v where
  freq := ⟨_, h.freq, pos_of_ne_zero hfreq, e.freq.toNat_lt⟩
  modulation := ⟨_, h.modulation, _, rfl⟩
  bandwidth := (leftOutOrIs_iff (isWord_iff lt_twoPow32_iff)).2 ⟨e.bandwidth, h.bandwidth⟩
  spreadFactor := ⟨_, h.spreadFactor, _, rfl, e.spreadFactor.toNat_lt⟩
  namedOnce := h.namedOnce
  preambleLength := (leftOutOrIs_iff (isWord_iff lt_twoPow16_iff)).2 ⟨e.preambleLength, h.preambleLength⟩
  settings := by
    cases ch with
    | lora frequency b factor preamble =>
      obtain ⟨hname, -, hb, ⟨hfactor, hrange⟩, -⟩ := hch
      exact Or.inl ⟨hname ▸ h.modulation, ⟨b, bandwidth_given h.bandwidth hb⟩, _, h.spreadFactor, hfactor ▸ hrange⟩
    | fsk frequency bitrate preamble =>
      obtain ⟨hname, -, ⟨hrate, hne⟩, -⟩ := hch
      exact Or.inr ⟨hname ▸ h.modulation, _, h.spreadFactor, pos_of_ne_zero (hrate ▸ hne)⟩

theorem holds_of_acceptable (h : Acceptable v) : ∃ e, Holds v e ∧ e.freq ≠ 0 := by
  obtain ⟨n, hfreq, hpos, hlt⟩ := h.freq
  obtain ⟨freq, rfl⟩ := (lt_twoPow32_iff n).1 hlt
  obtain ⟨modulation, hmodulation⟩ := (is_iff isText_iff).1 h.modulation
  obtain ⟨bandwidth, hbandwidth⟩ := (leftOutOrIs_iff (isWord_iff lt_twoPow32_iff)).1 h.bandwidth
  obtain ⟨factor, hfactor⟩ := (is_iff (isWord_iff lt_twoPow32_iff)).1 h.spreadFactor
  obtain ⟨preamble, hpreamble⟩ := (leftOutOrIs_iff (isWord_iff lt_twoPow16_iff)).1 h.preambleLength
  refine ⟨⟨freq, modulation, bandwidth, factor, preamble⟩,
    ⟨hfreq, hmodulation, hbandwidth, hfactor, h.namedOnce, hpreamble⟩, ?_⟩
  rintro rfl
  exact absurd hpos (by decide)

theorem describes_of_acceptable (h : Acceptable v) (he : Holds v e) : ∃ ch, e.Describes ch := by
  rcases h.settings with hlora | hfsk
  · obtain ⟨b, hb⟩ := hlora.bandwidth
    obtain ⟨n, hn, hrange⟩ := hlora.factor
    have hname : e.modulation = "LORA" := by simpa [he.modulation] using hlora.modulation
    have hfactor : e.spreadFactor.toNat = n := by simpa [he.spreadFactor] using hn
    have hhertz : e.bandwidth.toNat = b.hertz := by
      rcases he.bandwidth with ⟨hnone, -⟩ | hgiven
      · rw [hb] at hnone
        cases hnone
      · simpa [hgiven] using hb
    exact ⟨_, (describes_lora hname).2 ⟨b, hhertz, hfactor ▸ hrange, rfl⟩⟩
  · obtain ⟨n, hn, hpos⟩ := hfsk.bitrate
    have hname : e.modulation = "FSK" := by simpa [he.modulation] using hfsk.modulation
    have hrate : e.spreadFactor.toNat = n := by simpa [he.spreadFactor] using hn
    refine ⟨_, (describes_fsk hname).2 ⟨?_, rfl⟩⟩
    rintro hzero
    rw [hzero] at hrate
    exact absurd (hrate ▸ hpos) (by decide)

theorem accepts_iff : Accepts (ofJson (.ofMembers ms)) ch ↔
    ∃ e, Holds (.ofMembers ms) e ∧ e.freq ≠ 0 ∧ e.Describes ch := by
  refine exists_congr fun e => ?_
  rw [ofJson_iff_holds, validate_eq_ok_iff]

/-- **Exactly the acceptable objects are accepted.** -/
theorem exists_accepts_iff : (∃ ch, Accepts (ofJson (.ofMembers ms)) ch) ↔ Acceptable (.ofMembers ms) := by
  apply Iff.intro
  · rintro ⟨ch, h⟩
    obtain ⟨e, he, hfreq, hch⟩ := accepts_iff.1 h
    exact acceptable_of_holds he hfreq hch
  · intro h
    obtain ⟨e, he, hfreq⟩ := holds_of_acceptable h
    obtain ⟨ch, hch⟩ := describes_of_acceptable h he
    exact ⟨ch, accepts_iff.2 ⟨e, he, hfreq, hch⟩⟩

/-! ## The names of the preamble -/

theorem ofJson_respelled : ofJson (.ofMembers (rename respelling ms)) = .ok e ↔ ofJson (.ofMembers ms) = .ok e := by
  rw [ofJson, ofJson, Outcome.map_eq_ok, Outcome.map_eq_ok]
  exact exists_congr fun r => and_congr_left fun _ => respells.ofJson_rename ms

theorem ofText_eq_ok_iff (h : Json.parse text = .ok (.obj l)) :
    ofText text = .ok e ↔ schema.Distinct (rootMembers text) ∧ ofJson (.ofMembers (rootMembers text)) = .ok e := by
  rw [ofText, ofJson, Outcome.map_eq_ok, Outcome.map_eq_ok, ofMembers_eq, ← parse_object h]
  apply Iff.intro
  · rintro ⟨r, hr, rfl⟩
    obtain ⟨hdistinct, hvalue⟩ := (Schema.ofText_eq_ok_iff unchosen h).1 hr
    exact ⟨hdistinct, r, hvalue, rfl⟩
  · rintro ⟨hdistinct, r, hvalue, rfl⟩
    exact ⟨r, (Schema.ofText_eq_ok_iff unchosen h).2 ⟨hdistinct, hvalue⟩, rfl⟩

theorem distinct_respelled : schema.Distinct (rename respelling ms) ↔ schema.Distinct ms := by
  rw [Schema.Distinct, respells.givenKeys_rename, Schema.Distinct]

/-- an object with both names holds no entry, in whatever order its members are written -/
theorem ofJson_both (hlong : "preamble_length" ∈ names ms) (hshort : "PreambleLength" ∈ names ms) (e : ChannelEntry) :
    ofJson (.ofMembers ms) ≠ .ok e := by
  have hgiven : ∀ name ∈ names ms, (Json.ofMembers ms).get? name ≠ none := by
    intro name hname
    rw [get?_ofMembers, Ne, lookup_eq_none, names, List.map_reverse, List.mem_reverse, not_not]
    exact hname
  intro h
  rcases (ofJson_iff_holds.1 h).namedOnce with hnone | hnone
  · exact hgiven _ hlong hnone
  · exact hgiven _ hshort hnone

/-- **The text of an entry** holds what the object that it spells holds, unless it gives a field twice: by whichever of
its names, and wherever they stand. -/
structure ReadAlike (text : Bytes) : Prop where
  ok_iff : ∀ e, ofText text = .ok e ↔
    schema.Distinct (rootMembers text) ∧ ofJson (.ofMembers (rootMembers text)) = .ok e
  both : "preamble_length" ∈ names (rootMembers text) → "PreambleLength" ∈ names (rootMembers text) →
    ∀ e, ofText text ≠ .ok e
  respelled : ∀ text' l', Json.parse text' = .ok (.obj l') → rootMembers text' = rename respelling (rootMembers text) →
    ∀ ch, Accepts (ofText text') ch ↔ Accepts (ofText text) ch

theorem readAlike (h : Json.parse text = .ok (.obj l)) : ReadAlike text where
  ok_iff _ := ofText_eq_ok_iff h
  both hlong hshort _ he := not_both ((ofText_eq_ok_iff h).1 he).1 hlong hshort
  respelled text' l' h' hmembers ch := by
    refine exists_congr fun e => and_congr_left fun _ => ?_
    rw [ofText_eq_ok_iff h, ofText_eq_ok_iff h', hmembers, distinct_respelled, ofJson_respelled]

/-- **Exactly the acceptable objects are accepted**, and the channel carries what the object gives. With the other name
of the preamble the same channels are accepted, and with both names none. It is the same for texts. -/
theorem entry_accepted (ms : List (String × Json)) :
    ((∃ ch, Accepts (ofJson (.ofMembers ms)) ch) ↔ Acceptable (.ofMembers ms)) ∧
    (∀ ch, Accepts (ofJson (.ofMembers ms)) ch → Carries (.ofMembers ms) ch) ∧
    (∀ ch, Accepts (ofJson (.ofMembers (rename respelling ms))) ch ↔ Accepts (ofJson (.ofMembers ms)) ch) ∧
    ("preamble_length" ∈ names ms → "PreambleLength" ∈ names ms → ∀ e, ofJson (.ofMembers ms) ≠ .ok e) ∧
    ∀ text l, Json.parse text = .ok (.obj l) → ReadAlike text := by
  refine ⟨exists_accepts_iff, ?_, ?_, ofJson_both, fun text l h => readAlike h⟩
  · intro ch h
    obtain ⟨e, he, -, hch⟩ := accepts_iff.1 h
    exact carries_of_holds he hch
  · intro ch
    exact exists_congr fun e => and_congr_left fun _ => ofJson_respelled

def fskEntry (preamble : String) : List (String × Json) :=
  [("modulation", .str "FSK"), ("spread_factor", .int 50000), (preamble, .int 6), ("freq", .int 868800000)]

/-- an entry with both names of the preamble, not in the order of the keys -/
def doubleEntry : Bytes := bytesOf "\x7b\"preamble_length\":5,\"PreambleLength\":6\x7d"

theorem doubleEntry_object : ∃ l, Json.parse doubleEntry = .ok (.obj l) := by
  have hhead : (Json.parse doubleEntry).toOption.map Json.head = some .map := by decide +kernel
  obtain ⟨v, hv, hmap⟩ := Option.map_eq_some_iff.1 hhead
  cases v with
  | obj l => exact ⟨l, Outcome.toOption_eq_some.1 hv⟩
  | null | bool | int | float | str | arr => cases hmap

/-- An entry with the second name of the preamble is accepted like one with the first. An object or a text with both
names is none, also where they do not stand in the order of the keys. -/
theorem aliasedEntry_accepted :
    Acceptable (.ofMembers (fskEntry "PreambleLength")) ∧
    (∃ ch, Accepts (ofJson (.ofMembers (fskEntry "preamble_length"))) ch ∧
      Carries (.ofMembers (fskEntry "preamble_length")) ch) ∧
    (∀ e, ofJson (.ofMembers (("PreambleLength", .int 5) :: fskEntry "preamble_length")) ≠ .ok e) ∧
    ∀ e, ofText doubleEntry ≠ .ok e := by
  have hacceptable : Acceptable (.ofMembers (fskEntry "PreambleLength")) := {
    freq := ⟨868800000, by rfl, by decide, by decide⟩
    modulation := ⟨.str "FSK", by rfl, "FSK", rfl⟩
    bandwidth := Or.inl (by rfl)
    spreadFactor := ⟨.int 50000, by rfl, 50000, rfl, by decide⟩
    namedOnce := Or.inl (by rfl)
    preambleLength := Or.inr ⟨.int 6, by rfl, 6, rfl, by decide⟩
    settings := Or.inr ⟨by rfl, 50000, by rfl, by decide⟩ }
  obtain ⟨haccepted, -, hrespelled, -, htext⟩ := entry_accepted (fskEntry "PreambleLength")
  obtain ⟨-, hcarries, -⟩ := entry_accepted (fskEntry "preamble_length")
  obtain ⟨-, -, -, hboth, -⟩ := entry_accepted (("PreambleLength", .int 5) :: fskEntry "preamble_length")
  obtain ⟨ch, hch⟩ := haccepted.2 hacceptable
  have hfirst := (hrespelled ch).2 hch
  obtain ⟨l, hl⟩ := doubleEntry_object
  have hnames : names (rootMembers doubleEntry) = ["preamble_length", "PreambleLength"] := by decide +kernel
  refine ⟨hacceptable, ⟨ch, hfirst, hcarries ch hfirst⟩, hboth (by decide) (by decide), (htext _ _ hl).both ?_ ?_⟩
  · rw [hnames]
    decide
  · rw [hnames]
    decide

end PacketForwarder.ChannelEntry
