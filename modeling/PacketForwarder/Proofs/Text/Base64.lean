/-
Base64 text is canonical: `Base64.decode` accepts exactly what `Base64.encode` writes.

- `symbol_sextet`, `sextet?_symbol`: the alphabet and its inverse, on six bits.
- `decodeGroups_encodeBytes`: groups of three bytes come back from their four symbols.
- `encodeBytes_of_decodeGroups`: text that is accepted is the text of its bytes. A last group that is accepted has
  four places, its padding stands at the end, and the unused bits of its last symbol are zero.
- `decode_eq_ok_iff`: both directions, on strings.
-/
import PacketForwarder.Text.Base64
import PacketForwarder.Proofs.Outcome
import PacketForwarder.Proofs.Text.Bytes

namespace PacketForwarder.Base64

open Outcome

/-! ## The alphabet -/

theorem sextet?_symbol {v : Nat} (h : v < 64) : sextet? (symbol v) = some v := by
  have all : ∀ v < 64, sextet? (symbol v) = some v := by decide
  exact all v h

theorem symbol_sextet {b : UInt8} {v : Nat} (h : sextet? b = some v) : b = symbol v ∧ v < 64 := by
  have table : ∀ n : Fin 256, (sextet? (UInt8.ofNat n)).all
      (fun v => decide (UInt8.ofNat n = symbol v ∧ v < 64)) = true := by decide +kernel
  have hb := table ⟨b.toNat, b.toNat_lt⟩
  rw [UInt8.ofNat_toNat, h] at hb
  simpa using hb

theorem symbol_ne_pad {v : Nat} (h : v < 64) : symbol v ≠ pad := by
  have all : ∀ v < 64, symbol v ≠ pad := by decide
  exact all v h

theorem sextetAt_symbol (offset : Nat) {v : Nat} (h : v < 64) : sextetAt offset (symbol v) = .ok v := by
  rw [sextetAt, sextet?_symbol h]

theorem sextetAt_ok {offset : Nat} {b : UInt8} {v : Nat} (h : sextetAt offset b = .ok v) : b = symbol v ∧ v < 64 := by
  unfold sextetAt at h
  split at h
  · rename_i w hw
    cases h
    exact symbol_sextet hw
  · cases h

/-! ## Bytes from their symbols -/

/-- the pieces of three bytes, six bits each, make the bytes again -/
theorem byte_first (a b : UInt8) : UInt8.ofNat (a.toNat / 4 * 4 + (a.toNat % 4 * 16 + b.toNat / 16) / 16) = a := by
  have := b.toNat_lt
  have h : a.toNat / 4 * 4 + (a.toNat % 4 * 16 + b.toNat / 16) / 16 = a.toNat := by omega
  rw [h, UInt8.ofNat_toNat]

@[inherit_doc byte_first]
theorem byte_second (a b c : UInt8) :
    UInt8.ofNat ((a.toNat % 4 * 16 + b.toNat / 16) % 16 * 16 + (b.toNat % 16 * 4 + c.toNat / 64) / 4) = b := by
  have := b.toNat_lt
  have := c.toNat_lt
  have h : (a.toNat % 4 * 16 + b.toNat / 16) % 16 * 16 + (b.toNat % 16 * 4 + c.toNat / 64) / 4 = b.toNat := by omega
  rw [h, UInt8.ofNat_toNat]

@[inherit_doc byte_first]
theorem byte_third (b c : UInt8) : UInt8.ofNat ((b.toNat % 16 * 4 + c.toNat / 64) % 4 * 64 + c.toNat % 64) = c := by
  have := c.toNat_lt
  have h : (b.toNat % 16 * 4 + c.toNat / 64) % 4 * 64 + c.toNat % 64 = c.toNat := by omega
  rw [h, UInt8.ofNat_toNat]

/-- the symbols of a last group without its padding -/
theorem lastSymbols_append (offset place : Nat) (vs : List Nat) (pads : Nat) (hv : ∀ v ∈ vs, v < 64)
    (hp : pads = 0 ∨ 2 ≤ place + vs.length) :
    lastSymbols offset place (vs.map symbol ++ List.replicate pads pad) = .ok (vs, pads) := by
  induction vs generalizing place with
  | nil =>
    cases pads with
    | zero => rfl
    | succ k =>
      have hplace : 2 ≤ place := by simpa using hp
      simp [lastSymbols, List.replicate_succ, hplace]
  | cons v vs ih =>
    have hv0 := hv v List.mem_cons_self
    have hrec := ih (place + 1) (fun w hw => hv w (List.mem_cons_of_mem v hw)) (by
      simp only [List.length_cons] at hp
      omega)
    simp only [List.map_cons, List.cons_append, lastSymbols, if_neg (symbol_ne_pad hv0), sextetAt_symbol _ hv0,
      hrec]
    rfl

/-- a last group of four places gives the bytes of its symbols -/
theorem decodeLast_eq {offset pads : Nat} {group : List UInt8} {vs : List Nat}
    (hsym : lastSymbols offset 0 group = .ok (vs, pads)) (h1 : vs.length ≠ 1) (h4 : (vs.length + pads) % 4 = 0) :
    decodeLast offset group = lastBytes offset vs := by
  simp [decodeLast, hsym, bind, Except.bind, h1, h4]

theorem decodeLast_one (offset : Nat) (a : UInt8) :
    decodeLast offset [symbol (a.toNat / 4), symbol (a.toNat % 4 * 16), pad, pad] = .ok [a] := by
  have ha := a.toNat_lt
  have hsym := lastSymbols_append offset 0 [a.toNat / 4, a.toNat % 4 * 16] 2
    (by simp; omega) (Or.inr le_rfl)
  have hbyte : a.toNat / 4 * 4 + a.toNat % 4 * 16 / 16 = a.toNat := by omega
  refine (decodeLast_eq hsym (by simp) (by simp)).trans ?_
  rw [lastBytes, if_pos (by omega), hbyte, UInt8.ofNat_toNat]

theorem decodeLast_two (offset : Nat) (a b : UInt8) :
    decodeLast offset [symbol (a.toNat / 4), symbol (a.toNat % 4 * 16 + b.toNat / 16), symbol (b.toNat % 16 * 4), pad]
      = .ok [a, b] := by
  have ha := a.toNat_lt
  have hb := b.toNat_lt
  have hsym := lastSymbols_append offset 0
    [a.toNat / 4, a.toNat % 4 * 16 + b.toNat / 16, b.toNat % 16 * 4] 1 (by simp; omega) (Or.inr (by simp))
  have hsecond : (a.toNat % 4 * 16 + b.toNat / 16) % 16 * 16 + b.toNat % 16 * 4 / 4 = b.toNat := by omega
  refine (decodeLast_eq hsym (by simp) (by simp)).trans ?_
  rw [lastBytes, if_pos (by omega), byte_first, hsecond, UInt8.ofNat_toNat]

theorem decodeLast_three (offset : Nat) (a b c : UInt8) :
    decodeLast offset [symbol (a.toNat / 4), symbol (a.toNat % 4 * 16 + b.toNat / 16),
      symbol (b.toNat % 16 * 4 + c.toNat / 64), symbol (c.toNat % 64)] = .ok [a, b, c] := by
  have ha := a.toNat_lt
  have hb := b.toNat_lt
  have hc := c.toNat_lt
  have hsym := lastSymbols_append offset 0 [a.toNat / 4, a.toNat % 4 * 16 + b.toNat / 16,
    b.toNat % 16 * 4 + c.toNat / 64, c.toNat % 64] 0 (by simp; omega) (Or.inl rfl)
  refine (decodeLast_eq hsym (by simp) (by simp)).trans ?_
  rw [lastBytes, byte_first, byte_second, byte_third]

theorem encodeBytes_eq_nil {bs : List UInt8} (h : encodeBytes bs = []) : bs = [] := by
  match bs with
  | [] => rfl
  | [_] => simp [encodeBytes] at h
  | [_, _] => simp [encodeBytes] at h
  | _ :: _ :: _ :: _ => simp [encodeBytes] at h

/-- **Bytes come back from their symbols.** -/
theorem decodeGroups_encodeBytes (offset : Nat) (bs : List UInt8) :
    decodeGroups offset (encodeBytes bs) = .ok bs := by
  induction bs using encodeBytes.induct generalizing offset with
  | case1 => rfl
  | case2 a => exact decodeLast_one offset a
  | case3 a b => exact decodeLast_two offset a b
  | case4 a b c rest ih =>
    have ha := a.toNat_lt
    have hb := b.toNat_lt
    have hc := c.toNat_lt
    rw [encodeBytes]
    cases hrest : encodeBytes rest with
    | nil =>
      obtain rfl := encodeBytes_eq_nil hrest
      exact decodeLast_three offset a b c
    | cons e tail =>
      have hrec := ih (offset + 4)
      rw [hrest] at hrec
      rw [decodeGroups, sextetAt_symbol _ (by omega), sextetAt_symbol _ (by omega), sextetAt_symbol _ (by omega),
        sextetAt_symbol _ (by omega), hrec]
      simp only [bind, Except.bind, byte_first, byte_second, byte_third]

theorem length_encodeBytes (bs : List UInt8) : (encodeBytes bs).length % 4 = 0 := by
  induction bs using encodeBytes.induct with
  | case1 => simp [encodeBytes]
  | case2 a => simp [encodeBytes]
  | case3 a b => simp [encodeBytes]
  | case4 a b c rest ih =>
    simp only [encodeBytes, List.length_cons]
    omega

theorem decode_encodeBytes (bs : List UInt8) : decode (encodeBytes bs) = .ok bs := by
  have hlen := length_encodeBytes bs
  have hstray : ((encodeBytes bs).getLast?.filter fun b =>
      (encodeBytes bs).length % 4 = 1 && b != pad && (sextet? b).isNone) = none := by
    simp [hlen]
  rw [decode, hstray]
  exact decodeGroups_encodeBytes 0 bs

/-! ## Only the text of the bytes is accepted -/

/-- what an accepted last group looks like: symbols, and padding after at least two places -/
theorem lastSymbols_ok {offset place pads : Nat} {group : List UInt8} {vs : List Nat}
    (h : lastSymbols offset place group = .ok (vs, pads)) :
    group = vs.map symbol ++ List.replicate pads pad ∧ (∀ v ∈ vs, v < 64) ∧ (pads = 0 ∨ 2 ≤ place + vs.length) := by
  induction group generalizing place vs with
  | nil =>
    cases h
    simp
  | cons b rest ih =>
    rw [lastSymbols] at h
    split_ifs at h with hb hpads
    · cases h
      obtain ⟨hplace, hall⟩ := hpads
      have hrest : rest = List.replicate rest.length pad :=
        List.eq_replicate_iff.2 ⟨rfl, by simpa using hall⟩
      refine ⟨?_, by simp, Or.inr hplace⟩
      rw [hb, List.map_nil, List.nil_append, List.replicate_succ, ← hrest]
    · obtain ⟨v, hv, h⟩ := bind_eq_ok.1 h
      obtain ⟨⟨ws, k⟩, hrest, h⟩ := bind_eq_ok.1 h
      cases h
      obtain ⟨hgroup, hlt, hplace⟩ := ih hrest
      obtain ⟨hsym, hv64⟩ := sextetAt_ok hv
      refine ⟨by rw [hsym, hgroup]; rfl, ?_, ?_⟩
      · intro w hw
        rcases List.mem_cons.1 hw with rfl | hw
        · exact hv64
        · exact hlt w hw
      · simp only [List.length_cons]
        omega

theorem toNat_byte {n : Nat} (h : n < 256) : (UInt8.ofNat n).toNat = n := UInt8.toNat_ofNat_of_lt' h

/-- three bytes made of four symbols are written as these symbols -/
theorem encodeBytes_group {v w x y : Nat} (hv : v < 64) (hw : w < 64) (hx : x < 64) (hy : y < 64)
    (rest : List UInt8) :
    encodeBytes (.ofNat (v * 4 + w / 16) :: .ofNat (w % 16 * 16 + x / 4) :: .ofNat (x % 4 * 64 + y) :: rest) =
      symbol v :: symbol w :: symbol x :: symbol y :: encodeBytes rest := by
  have h1 : (v * 4 + w / 16) / 4 = v := by omega
  have h2 : (v * 4 + w / 16) % 4 * 16 + (w % 16 * 16 + x / 4) / 16 = w := by omega
  have h3 : (w % 16 * 16 + x / 4) % 16 * 4 + (x % 4 * 64 + y) / 64 = x := by omega
  have h4 : (x % 4 * 64 + y) % 64 = y := by omega
  rw [encodeBytes, toNat_byte (by omega), toNat_byte (by omega), toNat_byte (by omega), h1, h2, h3, h4]

/-- the bytes of a last group are written as its symbols, where no bit is lost -/
theorem encodeBytes_of_lastBytes {offset pads : Nat} {vs : List Nat} {bs : List UInt8} (hv : ∀ v ∈ vs, v < 64)
    (hlen : vs.length + pads = 4) (htwo : 2 ≤ vs.length) (h : lastBytes offset vs = .ok bs) :
    vs.map symbol ++ List.replicate pads pad = encodeBytes bs := by
  match vs, hv, hlen, htwo, h with
  | [v, w], hv, hlen, _, h =>
    obtain ⟨hv0, hw0⟩ : v < 64 ∧ w < 64 := by simpa using hv
    obtain rfl : pads = 2 := Nat.add_left_cancel hlen
    rw [lastBytes] at h
    split_ifs at h with hbits
    cases h
    have h1 : (v * 4 + w / 16) / 4 = v := by omega
    have h2 : (v * 4 + w / 16) % 4 * 16 = w := by omega
    rw [encodeBytes, toNat_byte (by omega), h1, h2]
    rfl
  | [v, w, x], hv, hlen, _, h =>
    obtain ⟨hv0, hw0, hx0⟩ : v < 64 ∧ w < 64 ∧ x < 64 := by simpa using hv
    obtain rfl : pads = 1 := Nat.add_left_cancel hlen
    rw [lastBytes] at h
    split_ifs at h with hbits
    cases h
    have h1 : (v * 4 + w / 16) / 4 = v := by omega
    have h2 : (v * 4 + w / 16) % 4 * 16 + (w % 16 * 16 + x / 4) / 16 = w := by omega
    have h3 : (w % 16 * 16 + x / 4) % 16 * 4 = x := by omega
    rw [encodeBytes, toNat_byte (by omega), toNat_byte (by omega), h1, h2, h3]
    rfl
  | [v, w, x, y], hv, hlen, _, h =>
    obtain ⟨hv0, hw0, hx0, hy0⟩ : v < 64 ∧ w < 64 ∧ x < 64 ∧ y < 64 := by simpa using hv
    obtain rfl : pads = 0 := Nat.add_left_cancel hlen
    rw [lastBytes] at h
    cases h
    rw [encodeBytes_group hv0 hw0 hx0 hy0]
    rfl
  | [], _, _, htwo, _ => exact absurd htwo (by decide)
  | [_], _, _, htwo, _ => exact absurd htwo (by simp)
  | _ :: _ :: _ :: _ :: _ :: _, _, hlen, _, _ =>
    simp only [List.length_cons] at hlen
    omega

theorem encodeBytes_of_decodeLast {offset : Nat} {group bs : List UInt8} (hlen : group.length ≤ 4)
    (h : decodeLast offset group = .ok bs) : group = encodeBytes bs := by
  obtain ⟨⟨vs, pads⟩, hsym, h⟩ := bind_eq_ok.1 h
  obtain ⟨hgroup, hv, hplace⟩ := lastSymbols_ok hsym
  have hcount : group.length = vs.length + pads := by simp [hgroup]
  dsimp only at h
  split_ifs at h with h1 h4
  -- an accepted group is empty or has four places, at least two of them symbols
  rcases Nat.eq_zero_or_pos group.length with h0 | hpos
  · obtain ⟨rfl, rfl⟩ : vs = [] ∧ pads = 0 := by
      rw [← List.length_eq_zero_iff]
      omega
    cases h
    exact hgroup
  · rw [hgroup]
    exact encodeBytes_of_lastBytes hv (by omega) (by omega) h

/-- **Text that is accepted is the text of its bytes.** -/
theorem encodeBytes_of_decodeGroups {offset : Nat} {text bs : List UInt8} (h : decodeGroups offset text = .ok bs) :
    text = encodeBytes bs := by
  induction offset, text using decodeGroups.induct generalizing bs with
  | case1 offset a b c d e rest ih =>
    rw [decodeGroups] at h
    obtain ⟨v, hv, h⟩ := bind_eq_ok.1 h
    obtain ⟨w, hw, h⟩ := bind_eq_ok.1 h
    obtain ⟨x, hx, h⟩ := bind_eq_ok.1 h
    obtain ⟨y, hy, h⟩ := bind_eq_ok.1 h
    obtain ⟨tail, htail, h⟩ := bind_eq_ok.1 h
    cases h
    obtain ⟨rfl, hv0⟩ := sextetAt_ok hv
    obtain ⟨rfl, hw0⟩ := sextetAt_ok hw
    obtain ⟨rfl, hx0⟩ := sextetAt_ok hx
    obtain ⟨rfl, hy0⟩ := sextetAt_ok hy
    rw [encodeBytes_group hv0 hw0 hx0 hy0, ← ih htail]
  | case2 offset group hgroup =>
    have hlen : group.length ≤ 4 := by
      match group, hgroup with
      | [], _ => simp
      | [_], _ => simp
      | [_, _], _ => simp
      | [_, _, _], _ => simp
      | [_, _, _, _], _ => simp
      | a :: b :: c :: d :: e :: rest, hgroup => exact absurd rfl (hgroup a b c d e rest)
    rw [decodeGroups] at h
    · exact encodeBytes_of_decodeLast hlen h
    · exact hgroup

theorem encodeBytes_of_decode {text bs : List UInt8} (h : decode text = .ok bs) : text = encodeBytes bs := by
  unfold decode at h
  dsimp only at h
  split at h
  · cases h
  · exact encodeBytes_of_decodeGroups h

theorem decode_bytes_iff {text bs : List UInt8} : decode text = .ok bs ↔ text = encodeBytes bs :=
  ⟨encodeBytes_of_decode, fun h => h ▸ decode_encodeBytes bs⟩

/-! ## Text -/

/-- the symbols and the padding are plain characters, one byte each -/
theorem symbol_plain {v : Nat} (h : v < 64) : IsPlain (Char.ofNat (symbol v).toNat) := by
  have all : ∀ v < 64, IsPlain (Char.ofNat (symbol v).toNat) := by decide +kernel
  exact all v h

theorem encodeBytes_plain (bs : List UInt8) : ∀ b ∈ encodeBytes bs, IsPlain (Char.ofNat b.toNat) := by
  induction bs using encodeBytes.induct with
  | case1 => simp [encodeBytes]
  | case2 a =>
    have ha := a.toNat_lt
    intro b hb
    simp only [encodeBytes, List.mem_cons, List.not_mem_nil, or_false] at hb
    rcases hb with rfl | rfl | rfl | rfl
    · exact symbol_plain (by omega)
    · exact symbol_plain (by omega)
    · decide
    · decide
  | case3 a b =>
    have ha := a.toNat_lt
    have hb := b.toNat_lt
    intro c hc
    simp only [encodeBytes, List.mem_cons, List.not_mem_nil, or_false] at hc
    rcases hc with rfl | rfl | rfl | rfl
    · exact symbol_plain (by omega)
    · exact symbol_plain (by omega)
    · exact symbol_plain (by omega)
    · decide
  | case4 a b c rest ih =>
    have ha := a.toNat_lt
    have hb := b.toNat_lt
    have hc := c.toNat_lt
    intro d hd
    simp only [encodeBytes, List.mem_cons] at hd
    rcases hd with rfl | rfl | rfl | rfl | hd
    · exact symbol_plain (by omega)
    · exact symbol_plain (by omega)
    · exact symbol_plain (by omega)
    · exact symbol_plain (by omega)
    · exact ih d hd

theorem encode_plain (bs : List UInt8) : PlainText (encode bs) := by
  refine plainText_ofList fun c hc => ?_
  obtain ⟨b, hb, rfl⟩ := List.mem_map.1 hc
  exact encodeBytes_plain bs b hb

theorem bytesOf_encode (bs : List UInt8) : bytesOf (encode bs) = encodeBytes bs := by
  have hascii : ∀ b ∈ encodeBytes bs, (Char.ofNat b.toNat).toUInt8 = b := by
    intro b hb
    have hlt := (encodeBytes_plain bs b hb).ascii
    have table : ∀ n : Fin 256, (Char.ofNat n).toNat < 128 → (Char.ofNat n).toUInt8 = UInt8.ofNat n := by
      decide +kernel
    have h := table ⟨b.toNat, b.toNat_lt⟩ hlt
    rwa [UInt8.ofNat_toNat] at h
  rw [(encode_plain bs).bytesOf, encode, String.toList_ofList, List.map_map]
  conv_rhs => rw [← List.map_id (encodeBytes bs)]
  exact List.map_congr_left hascii

/-- **Base64 text is canonical**: a text is accepted with some bytes exactly if it is what is written for them. -/
theorem decode_eq_ok_iff {s : String} {bs : List UInt8} : decode s.toUTF8.toList = .ok bs ↔ s = encode bs := by
  change decode (bytesOf s) = .ok bs ↔ _
  rw [decode_bytes_iff, ← bytesOf_encode]
  exact ⟨bytesOf_injective, fun h => h ▸ rfl⟩

end PacketForwarder.Base64
