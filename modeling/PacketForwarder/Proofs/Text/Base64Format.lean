/-
What base 64 spells, said without its groups. The bytes of a text are the digits of one number in base 256. Zero bits
are added until the bits come in sixes; the symbols are the digits of that number in base 64, and `=` fills the text up
to a multiple of four. `Base64.encode` goes by groups of three bytes, each of which is four whole digits, and only the
last one may leave bits over (`spells_encode`).
-/
import PacketForwarder.Proofs.Text.Base64

namespace PacketForwarder.Base64

/-- the standard alphabet, in the order of the digits -/
def alphabet : String := "ABCDEFGHIJKLMNOPQRSTUVWXYZabcdefghijklmnopqrstuvwxyz0123456789+/"

def letter (v : Nat) : Char := alphabet.toList.getD v '='

/-- the number with these digits, the first one counting most, after others -/
def appendDigits (base : Nat) (before : Nat) (ds : List Nat) : Nat := ds.foldl (fun n d => n * base + d) before

/-- Digits in base 64 for bytes, and how many `=` come after them: as few digits as have room for all bits, with zeros
where there is more room, and a text that comes in fours. -/
structure Digits (bytes : List UInt8) (ds : List Nat) (pads : Nat) : Prop where
  lt : ∀ d ∈ ds, d < 64
  bits : 8 * bytes.length ≤ 6 * ds.length ∧ 6 * ds.length < 8 * bytes.length + 6
  value : ∀ before, appendDigits 64 before ds =
    appendDigits 256 before (bytes.map UInt8.toNat) * 2 ^ (6 * ds.length - 8 * bytes.length)
  fours : (ds.length + pads) % 4 = 0 ∧ pads < 4

/-- **The standard text of bytes.** -/
def Spells (bytes : List UInt8) (s : String) : Prop :=
  ∃ ds pads, Digits bytes ds pads ∧ s.toList = ds.map letter ++ List.replicate pads '='

theorem digits_encodeBytes (bytes : List UInt8) : ∃ ds pads, Digits bytes ds pads ∧
    encodeBytes bytes = ds.map symbol ++ List.replicate pads pad := by
  induction bytes using encodeBytes.induct with
  | case1 => exact ⟨[], 0, ⟨by simp, by simp, by simp [appendDigits], by simp⟩, rfl⟩
  | case2 a =>
    have ha := a.toNat_lt
    refine ⟨[a.toNat / 4, a.toNat % 4 * 16], 2, ⟨?_, by simp, fun before => ?_, by simp⟩, rfl⟩
    · simp only [List.forall_mem_cons]
      exact ⟨by omega, by omega, List.forall_mem_nil _⟩
    · simp [appendDigits]
      omega
  | case3 a b =>
    have ha := a.toNat_lt
    have hb := b.toNat_lt
    refine ⟨[a.toNat / 4, a.toNat % 4 * 16 + b.toNat / 16, b.toNat % 16 * 4], 1,
      ⟨?_, by simp, fun before => ?_, by simp⟩, rfl⟩
    · simp only [List.forall_mem_cons]
      exact ⟨by omega, by omega, by omega, List.forall_mem_nil _⟩
    · simp [appendDigits]
      omega
  | case4 a b c rest ih =>
    have ha := a.toNat_lt
    have hb := b.toNat_lt
    have hc := c.toNat_lt
    obtain ⟨ds, pads, hds, hencode⟩ := ih
    have hbits := hds.bits
    refine ⟨a.toNat / 4 :: (a.toNat % 4 * 16 + b.toNat / 16) :: (b.toNat % 16 * 4 + c.toNat / 64) :: c.toNat % 64 :: ds,
      pads, ⟨?_, ?_, fun before => ?_, ?_⟩, ?_⟩
    · simp only [List.forall_mem_cons]
      exact ⟨by omega, by omega, by omega, by omega, hds.lt⟩
    · simp only [List.length_cons]
      omega
    · -- four digits and three bytes bring the same number before the rest
      have hgroup : (((before * 64 + a.toNat / 4) * 64 + (a.toNat % 4 * 16 + b.toNat / 16)) * 64 +
          (b.toNat % 16 * 4 + c.toNat / 64)) * 64 + c.toNat % 64 =
          ((before * 256 + a.toNat) * 256 + b.toNat) * 256 + c.toNat := by omega
      have hrest := hds.value (((before * 256 + a.toNat) * 256 + b.toNat) * 256 + c.toNat)
      have hunused : 6 * (ds.length + 1 + 1 + 1 + 1) - 8 * (rest.length + 1 + 1 + 1) =
          6 * ds.length - 8 * rest.length := by omega
      unfold appendDigits at *
      simp only [List.foldl_cons, List.map_cons, List.length_cons, hgroup, hunused]
      exact hrest
    · have hfours := hds.fours
      simp only [List.length_cons]
      omega
    · rw [encodeBytes, hencode]
      rfl

theorem letter_symbol {v : Nat} (h : v < 64) : Char.ofNat (symbol v).toNat = letter v := by
  have all : ∀ v < 64, Char.ofNat (symbol v).toNat = letter v := by decide +kernel
  exact all v h

/-- **Bytes are written in the standard text.** -/
theorem spells_encode (bytes : List UInt8) : Spells bytes (encode bytes) := by
  obtain ⟨ds, pads, hds, hencode⟩ := digits_encodeBytes bytes
  refine ⟨ds, pads, hds, ?_⟩
  rw [encode, String.toList_ofList, hencode, List.map_append, List.map_map, List.map_replicate]
  have hletters : ds.map ((fun b : UInt8 => Char.ofNat b.toNat) ∘ symbol) = ds.map letter :=
    List.map_congr_left fun v hv => letter_symbol (hds.lt v hv)
  rw [hletters]
  rfl

end PacketForwarder.Base64
