/-
The bytes of a text. `bytesOf` is the UTF-8 form of a string as a list, which is what a reader takes; it loses
nothing (`bytesOf_injective`, `fromUTF8?_bytesOf`), and for ASCII text it is one byte for each character.

`Plain` characters stand in a JSON string as they are: printable ASCII but for the quote and the backslash. All
text that a report holds is plain.
-/
import Mathlib.Tactic

namespace PacketForwarder

/-! ## The bytes of a string -/

/-- the UTF-8 form of a text -/
def bytesOf (s : String) : List UInt8 := s.toUTF8.toList

theorem toList_loop (bs : ByteArray) (i : Nat) (acc : List UInt8) :
    ByteArray.toList.loop bs i acc = acc.reverse ++ bs.data.toList.drop i := by
  induction i, acc using ByteArray.toList.loop.induct bs with
  | case1 i acc hlt ih =>
    have hi : i < bs.data.toList.length := hlt
    have hget : bs.get! i = bs.data.toList[i] := by
      rw [Array.getElem_toList]
      exact getElem!_pos bs.data i hlt
    rw [ByteArray.toList.loop, if_pos hlt, ih, List.drop_eq_getElem_cons hi, hget]
    simp
  | case2 i acc hge =>
    have hi : bs.data.toList.length ≤ i := not_lt.1 hge
    rw [ByteArray.toList.loop, if_neg hge, List.drop_eq_nil_of_le hi, List.append_nil]

theorem toList_eq_data (bs : ByteArray) : bs.toList = bs.data.toList := by
  rw [ByteArray.toList, toList_loop]
  simp

theorem bytesOf_eq (s : String) : bytesOf s = s.toList.flatMap String.utf8EncodeChar := by
  rw [bytesOf, toList_eq_data, String.toUTF8_eq_toByteArray, ← String.utf8Encode_toList, List.utf8Encode,
    List.toList_data_toByteArray]

theorem bytesOf_ofList (cs : List Char) : bytesOf (String.ofList cs) = cs.flatMap String.utf8EncodeChar := by
  rw [bytesOf_eq, String.toList_ofList]

@[simp]
theorem bytesOf_append (s t : String) : bytesOf (s ++ t) = bytesOf s ++ bytesOf t := by
  simp [bytesOf_eq]

theorem bytesOf_toArray (s : String) : (⟨(bytesOf s).toArray⟩ : ByteArray) = s.toByteArray := by
  rw [bytesOf, toList_eq_data, String.toUTF8_eq_toByteArray]

theorem bytesOf_injective {s t : String} (h : bytesOf s = bytesOf t) : s = t := by
  rw [← String.toByteArray_inj, ← bytesOf_toArray s, ← bytesOf_toArray t, h]

/-- the bytes of a text are read as the text -/
theorem fromUTF8?_bytesOf (s : String) : String.fromUTF8? ⟨(bytesOf s).toArray⟩ = some s := by
  rw [bytesOf_toArray, String.fromUTF8?, dif_pos s.isValidUTF8]
  rfl

/-! ## ASCII -/

theorem utf8EncodeChar_ascii {c : Char} (h : c.toNat < 128) : String.utf8EncodeChar c = [c.toUInt8] := by
  have hsize : c.utf8Size = 1 := by
    rw [Char.utf8Size_eq_one_iff, UInt32.le_iff_toNat_le]
    exact Nat.le_of_lt_succ h
  exact String.utf8EncodeChar_eq_singleton hsize

theorem bytesOf_ascii {cs : List Char} (h : ∀ c ∈ cs, c.toNat < 128) :
    bytesOf (String.ofList cs) = cs.map Char.toUInt8 := by
  rw [bytesOf_ofList]
  induction cs with
  | nil => rfl
  | cons c cs ih =>
    rw [List.flatMap_cons, utf8EncodeChar_ascii (h c List.mem_cons_self),
      ih fun d hd => h d (List.mem_cons_of_mem c hd)]
    rfl

theorem toUInt8_toNat {c : Char} (h : c.toNat < 128) : c.toUInt8.toNat = c.toNat := by
  have h1 : c.toUInt8.toNat = c.toNat % 2 ^ 8 := rfl
  omega

/-- an ASCII character is known by its byte -/
theorem ofNat_toUInt8 {c : Char} (h : c.toNat < 128) : Char.ofNat c.toUInt8.toNat = c := by
  rw [toUInt8_toNat h, Char.ofNat_toNat]

theorem map_ofNat_toUInt8 {cs : List Char} (h : ∀ c ∈ cs, c.toNat < 128) :
    (cs.map Char.toUInt8).map (fun b => Char.ofNat b.toNat) = cs := by
  rw [List.map_map]
  conv_rhs => rw [← List.map_id cs]
  exact List.map_congr_left fun c hc => ofNat_toUInt8 (h c hc)

/-! ## Plain text -/

/-- a character that stands in a JSON string as it is -/
def IsPlain (c : Char) : Prop := 0x20 ≤ c.toNat ∧ c.toNat < 0x7f ∧ c ≠ '"' ∧ c ≠ '\\'

instance (c : Char) : Decidable (IsPlain c) := by
  unfold IsPlain; infer_instance

def PlainText (s : String) : Prop := ∀ c ∈ s.toList, IsPlain c

-- characters are finitely many, and the search through all of them would be found first
instance (s : String) : Decidable (PlainText s) := List.decidableBAll IsPlain s.toList

theorem IsPlain.ascii {c : Char} (h : IsPlain c) : c.toNat < 128 := h.2.1.trans (by norm_num)

theorem plain_of_isDigit {c : Char} (h : c.isDigit = true) : IsPlain c := by
  obtain ⟨h1, h2⟩ : 48 ≤ c.toNat ∧ c.toNat ≤ 57 := by
    simpa [Char.isDigit, UInt32.le_iff_toNat_le] using h
  refine ⟨by omega, by omega, ?_, ?_⟩ <;> rintro rfl <;> revert h <;> decide

theorem PlainText.append {s t : String} (hs : PlainText s) (ht : PlainText t) : PlainText (s ++ t) := by
  intro c hc
  rw [String.toList_append, List.mem_append] at hc
  exact hc.elim (hs c) (ht c)

theorem plainText_ofList {cs : List Char} (h : ∀ c ∈ cs, IsPlain c) : PlainText (String.ofList cs) := by
  intro c hc
  rw [String.toList_ofList] at hc
  exact h c hc

theorem plainText_digits {cs : List Char} (h : ∀ c ∈ cs, c.isDigit = true) : PlainText (String.ofList cs) :=
  plainText_ofList fun c hc => plain_of_isDigit (h c hc)

theorem PlainText.bytesOf {s : String} (h : PlainText s) : bytesOf s = s.toList.map Char.toUInt8 := by
  conv_lhs => rw [← String.ofList_toList (s := s)]
  exact bytesOf_ascii fun c hc => (h c hc).ascii

end PacketForwarder
