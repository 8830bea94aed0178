/-
The fields of a request on the wire. `Request.Holds` says of an object what each of the fourteen fields of a request is:
given with a value of its kind, or left out where it has a default. An object with distinct keys is read as a request
exactly if it holds that request (`ofJson_object`).
-/
import PacketForwarder.Downlink.Request
import PacketForwarder.Proofs.Json.TwoReaders

namespace PacketForwarder

open Json

namespace Request

variable {ms : List (String × Json)} {v : Json} {r : Request} {k : Key}

theorem singleNames : schema.SingleNames where
  aliases _ := rfl
  injective := by
    intro k k' h
    cases k <;> cases k' <;> first
      | rfl
      | exact absurd h (by decide)

theorem unchosen : schema.Unchosen := by
  intro k names
  cases k <;> exact nofun

theorem given_eq (k : Key) : schema.given ms k = (Json.obj ms).get? k.name := singleNames.given_eq

/-! ## Fields on the wire -/

/-- a field with a default: left out, or given with this value -/
def LeftOutOr (given : Option Json) (default : Prop) (v : Json) : Prop := (given = none ∧ default) ∨ given = some v

/-- a word that may be left out or null -/
def MaybeWord (given : Option Json) (word : Option Nat) : Prop :=
  (word = none ∧ (given = none ∨ given = some .null)) ∨ ∃ n, word = some n ∧ given = some (.int n)

/-- **What an object says of each field of a request.** -/
structure Holds (v : Json) (r : Request) : Prop where
  imme : LeftOutOr (v.get? "imme") (r.imme = false) (.bool r.imme)
  tmst : MaybeWord (v.get? "tmst") (r.tmst.map UInt32.toNat)
  tmms : MaybeWord (v.get? "tmms") (r.tmms.map UInt64.toNat)
  ncrc : LeftOutOr (v.get? "ncrc") (r.ncrc = false) (.bool r.ncrc)
  freq : (v.get? "freq").bind Json.toDouble? = some r.freq
  rfch : v.get? "rfch" = some (.int r.rfch.toNat)
  powe : LeftOutOr (v.get? "powe") (r.powe = 0) (.int r.powe.toNat)
  modu : v.get? "modu" = some (.str r.modu)
  datr : r.datr = .ofJson ((v.get? "datr").getD .null)
  codr : LeftOutOr (v.get? "codr") (r.codr = "") (.str r.codr)
  ipol : LeftOutOr (v.get? "ipol") (r.ipol = false) (.bool r.ipol)
  prea : LeftOutOr (v.get? "prea") (r.prea = 0) (.int r.prea.toNat)
  fdev : (v.get? "fdev" = none ∧ r.fdev = .zero .double) ∨ (v.get? "fdev").bind Json.toDouble? = some r.fdev
  data : v.get? "data" = some (.str r.data)

/-- a field of a kind is what is given for it, or its default -/
def FieldHolds (K : Kind) (default : Option K.Carrier) (given : Option Json) (x : K.Carrier) : Prop :=
  (given = none ∧ default = some x) ∨ ∃ v, given = some v ∧ K.ofJson v = .ok x

section Fields

variable {g : Option Json} {bits : Nat}

theorem leftOut_iff {K : Kind} {x d : K.Carrier} {P : Json → Prop} (hP : ∀ v, K.ofJson v = .ok x ↔ P v) :
    FieldHolds K (some d) g x ↔ (g = none ∧ x = d) ∨ ∃ v, g = some v ∧ P v := by
  unfold FieldHolds
  rw [Option.some.injEq, eq_comm (a := d)]
  simp only [hP]

theorem mandatory_iff {K : Kind} {x : K.Carrier} {P : Json → Prop} (hP : ∀ v, K.ofJson v = .ok x ↔ P v) :
    FieldHolds K none g x ↔ ∃ v, g = some v ∧ P v := by
  simp [FieldHolds, hP]

theorem leftOut_field {K : Kind} {x d : K.Carrier} {v : Json} (hv : ∀ v', K.ofJson v' = .ok x ↔ v' = v) :
    FieldHolds K (some d) g x ↔ LeftOutOr g (x = d) v := by
  rw [leftOut_iff hv, exists_eq_right, LeftOutOr]

theorem mandatory_field {K : Kind} {x : K.Carrier} {v : Json} (hv : ∀ v', K.ofJson v' = .ok x ↔ v' = v) :
    FieldHolds K none g x ↔ g = some v := by
  rw [mandatory_iff hv, exists_eq_right]

theorem real_field {x : Double} : FieldHolds (.scalar .real) none g x ↔ g.bind Json.toDouble? = some x := by
  rw [mandatory_iff fun _ => Kind.real_eq_ok, Option.bind_eq_some_iff]

theorem leftOutReal_field {x d : Double} :
    FieldHolds (.scalar .real) (some d) g x ↔ (g = none ∧ x = d) ∨ g.bind Json.toDouble? = some x := by
  rw [leftOut_iff fun _ => Kind.real_eq_ok, Option.bind_eq_some_iff]

theorem maybeWord_field {o : Option (BitVec bits)} :
    FieldHolds (.optional (.natural bits)) (some none) g o ↔ MaybeWord g (o.map BitVec.toNat) := by
  unfold FieldHolds MaybeWord
  apply Iff.intro
  · intro h
    rcases h with ⟨hg, hd⟩ | ⟨v, hg, hv⟩
    · cases hd
      exact Or.inl ⟨rfl, Or.inl hg⟩
    · rcases Kind.optional_eq_ok.1 hv with ⟨rfl, rfl⟩ | ⟨w, rfl, -, hw⟩
      · exact Or.inl ⟨rfl, Or.inr hg⟩
      · exact Or.inr ⟨BitVec.toNat w, rfl, hg.trans (congrArg some (Kind.natural_eq_ok.1 hw))⟩
  · intro h
    rcases h with ⟨ho, hg | hg⟩ | ⟨n, ho, hg⟩
    · exact Or.inl ⟨hg, congrArg some (Option.map_eq_none_iff.1 ho).symm⟩
    · refine Or.inr ⟨.null, hg, Kind.optional_eq_ok.2 (Or.inl ⟨Option.map_eq_none_iff.1 ho, rfl⟩)⟩
    · obtain ⟨w, rfl, rfl⟩ := Option.map_eq_some_iff.1 ho
      exact Or.inr ⟨_, hg, Kind.optional_eq_ok.2 (Or.inr ⟨w, rfl, nofun, Kind.natural_eq_ok.2 rfl⟩)⟩

theorem any_field {x : Json} : FieldHolds .any (some .null) g x ↔ x = g.getD .null := by
  unfold FieldHolds
  cases g with
  | none => simp [eq_comm]
  | some v =>
    apply Iff.intro
    · intro h
      rcases h with ⟨h, -⟩ | ⟨v', h, hx⟩
      · cases h
      · cases h
        exact (Except.ok.inj hx).symm
    · intro h
      exact Or.inr ⟨v, rfl, congrArg Except.ok h.symm⟩

end Fields

/-- the record of a request, where the datarate is the value that is given -/
def toRecord (datr : Json) (r : Request) : schema.Record := fun k =>
  match k with
  | .imme => r.imme
  | .tmst => r.tmst.map UInt32.toBitVec
  | .tmms => r.tmms.map UInt64.toBitVec
  | .ncrc => r.ncrc
  | .freq => r.freq
  | .rfch => r.rfch.toBitVec
  | .powe => r.powe.toBitVec
  | .modu => r.modu
  | .datr => datr
  | .codr => r.codr
  | .ipol => r.ipol
  | .prea => r.prea.toBitVec
  | .fdev => r.fdev
  | .data => r.data

theorem ofRecord_toRecord {datr : Json} (hdatr : r.datr = .ofJson datr) : ofRecord (toRecord datr r) = r := by
  have h32 : (r.tmst.map UInt32.toBitVec).map UInt32.ofBitVec = r.tmst := by cases r.tmst <;> rfl
  have h64 : (r.tmms.map UInt64.toBitVec).map UInt64.ofBitVec = r.tmms := by cases r.tmms <;> rfl
  cases r
  unfold ofRecord toRecord
  dsimp only at hdatr h32 h64 ⊢
  rw [h32, h64, hdatr]

/-- an object with distinct keys is read field by field -/
theorem ofJson_fields (h : (names ms).Nodup) {rec : schema.Record} : schema.ofJson (.obj ms) = .ok rec ↔
    ∀ k : Key, FieldHolds k.kind k.default ((Json.obj ms).get? k.name) (rec k) := by
  have hdistinct : schema.Distinct ms :=
    singleNames.distinct_iff.2 fun k => List.nodup_iff_count_le_one.1 h _
  rw [Schema.ofJson_obj, and_iff_right hdistinct]
  refine forall_congr' fun k => ?_
  rw [given_eq k]
  exact Schema.field_eq_ok

theorem holds_ofRecord {rec : schema.Record} (h : ∀ k : Key, FieldHolds k.kind k.default (v.get? k.name) (rec k)) :
    Holds v (ofRecord rec) := by
  have h32 : ∀ o : Option (BitVec 32), o.map BitVec.toNat = (o.map UInt32.ofBitVec).map UInt32.toNat := by
    intro o
    cases o <;> rfl
  have h64 : ∀ o : Option (BitVec 64), o.map BitVec.toNat = (o.map UInt64.ofBitVec).map UInt64.toNat := by
    intro o
    cases o <;> rfl
  have hpowe := (leftOut_field fun _ => Kind.natural_eq_ok).1 (h .powe)
  have hprea := (leftOut_field fun _ => Kind.natural_eq_ok).1 (h .prea)
  exact {
    imme := (leftOut_field fun _ => Kind.bool_eq_ok).1 (h .imme)
    tmst := h32 _ ▸ maybeWord_field.1 (h .tmst)
    tmms := h64 _ ▸ maybeWord_field.1 (h .tmms)
    ncrc := (leftOut_field fun _ => Kind.bool_eq_ok).1 (h .ncrc)
    freq := real_field.1 (h .freq)
    rfch := (mandatory_field fun _ => Kind.natural_eq_ok).1 (h .rfch)
    powe := hpowe.imp_left (And.imp_right (congrArg UInt8.ofBitVec))
    modu := (mandatory_field fun _ => Kind.text_eq_ok).1 (h .modu)
    datr := congrArg WireDatarate.ofJson (any_field.1 (h .datr))
    codr := (leftOut_field fun _ => Kind.text_eq_ok).1 (h .codr)
    ipol := (leftOut_field fun _ => Kind.bool_eq_ok).1 (h .ipol)
    prea := hprea.imp_left (And.imp_right (congrArg UInt16.ofBitVec))
    fdev := leftOutReal_field.1 (h .fdev)
    data := (mandatory_field fun _ => Kind.text_eq_ok).1 (h .data) }

theorem fields_toRecord (h : Holds v r) (k : Key) :
    FieldHolds k.kind k.default (v.get? k.name) (toRecord ((v.get? "datr").getD .null) r k) := by
  cases k with
  | imme => exact (leftOut_field fun _ => Kind.bool_eq_ok).2 h.imme
  | tmst =>
    have hword : (r.tmst.map UInt32.toBitVec).map BitVec.toNat = r.tmst.map UInt32.toNat := by cases r.tmst <;> rfl
    exact maybeWord_field.2 (hword.symm ▸ h.tmst)
  | tmms =>
    have hword : (r.tmms.map UInt64.toBitVec).map BitVec.toNat = r.tmms.map UInt64.toNat := by cases r.tmms <;> rfl
    exact maybeWord_field.2 (hword.symm ▸ h.tmms)
  | ncrc => exact (leftOut_field fun _ => Kind.bool_eq_ok).2 h.ncrc
  | freq => exact real_field.2 h.freq
  | rfch => exact (mandatory_field fun _ => Kind.natural_eq_ok).2 h.rfch
  | powe =>
    have hdefault := h.powe.imp_left (And.imp_right (congrArg UInt8.toBitVec))
    exact (leftOut_field fun _ => Kind.natural_eq_ok).2 hdefault
  | modu => exact (mandatory_field fun _ => Kind.text_eq_ok).2 h.modu
  | datr => exact any_field.2 rfl
  | codr => exact (leftOut_field fun _ => Kind.text_eq_ok).2 h.codr
  | ipol => exact (leftOut_field fun _ => Kind.bool_eq_ok).2 h.ipol
  | prea =>
    have hdefault := h.prea.imp_left (And.imp_right (congrArg UInt16.toBitVec))
    exact (leftOut_field fun _ => Kind.natural_eq_ok).2 hdefault
  | fdev => exact leftOutReal_field.2 h.fdev
  | data => exact (mandatory_field fun _ => Kind.text_eq_ok).2 h.data

/-- an object holds the request that it is read as, also where it repeats a key that is no field -/
theorem holds_of_ofJson (h : Request.ofJson (.obj ms) = .ok r) : Holds (.obj ms) r := by
  obtain ⟨rec, hrec, rfl⟩ := Outcome.map_eq_ok.1 h
  obtain ⟨-, hfields⟩ := Schema.ofJson_obj.1 hrec
  refine holds_ofRecord fun k => ?_
  rw [← given_eq k]
  exact Schema.field_eq_ok.1 (hfields k)

/-- **An object with distinct keys is read as the request that it holds.** -/
theorem ofJson_object (h : (names ms).Nodup) : Request.ofJson (.obj ms) = .ok r ↔ Holds (.obj ms) r := by
  apply Iff.intro
  · exact holds_of_ofJson
  · intro hr
    exact Outcome.map_eq_ok.2 ⟨_, (ofJson_fields h).2 (fields_toRecord hr), ofRecord_toRecord hr.datr⟩

end Request

end PacketForwarder
