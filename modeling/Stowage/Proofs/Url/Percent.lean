import Stowage.Proofs.Text.Utf8
import Stowage.Url.Percent
/-!
# Stowage — percent-encoding reads back

Decoding undoes encoding (`decode_encode`) for every set that holds the percent sign: an escape is
decoded to the byte it was made from, and nothing else that encoding writes looks like one. So
encoded texts are equal only if the texts are (`encode_injective`). What is in the set does not stand
in an encoded text, the characters of escapes apart (`notMem_encode`).
-/

namespace Stowage.Percent

open Utf8

/-! ## Escapes -/

theorem capital_ascii {n : Nat} (h : n < 16) : (Hex.capital n).toNat < 0x80 := by
  have hall : ∀ k : Fin 16, (Hex.capital k).toNat < 0x80 := by decide
  exact hall ⟨n, h⟩

theorem ofByte?_capital {n : Nat} (h : n < 16) :
    Hex.ofByte? (UInt8.ofNat (Hex.capital n).toNat) = some n := by
  have hall : ∀ k : Fin 16, Hex.ofByte? (UInt8.ofNat (Hex.capital k).toNat) = some k.val := by
    decide
  exact hall ⟨n, h⟩

/-- An escape is three bytes: the percent sign and the two digits. -/
theorem encode_escape (b : UInt8) :
    Utf8.encode (escape b) = [37, UInt8.ofNat (Hex.capital (b.toNat / 16)).toNat,
      UInt8.ofNat (Hex.capital (b.toNat % 16)).toNat] := by
  have hb : b.toNat < 256 := b.toNat_lt
  have hhigh := encodeChar_ascii (capital_ascii (n := b.toNat / 16) (by omega))
  have hlow := encodeChar_ascii (capital_ascii (n := b.toNat % 16) (by omega))
  have hmark : String.utf8EncodeChar '%' = [37] := by decide
  rw [escape, Hex.capitalPair, encode_cons, encode_cons, encode_cons, hmark, hhigh, hlow]
  rfl

/-- An escape is decoded to its byte. -/
theorem decode_escape (b : UInt8) (rest : Bytes) :
    decode (Utf8.encode (escape b) ++ rest) = b :: decode rest := by
  have hb : b.toNat < 256 := b.toNat_lt
  have hbyte : byte? (UInt8.ofNat (Hex.capital (b.toNat / 16)).toNat)
      (UInt8.ofNat (Hex.capital (b.toNat % 16)).toNat) = some b := by
    rw [byte?, ofByte?_capital (by omega), ofByte?_capital (by omega)]
    show some (UInt8.ofNat (b.toNat / 16 * 16 + b.toNat % 16)) = some b
    rw [Nat.div_add_mod', UInt8.ofNat_toNat]
  rw [encode_escape]
  show decode (37 :: _ :: _ :: rest) = _
  rw [decode, hbyte]

/-- Escapes one after the other. Induction on the bytes that they are made from. -/
theorem decode_escapes (bytes rest : Bytes) :
    decode (Utf8.encode (bytes.flatMap escape) ++ rest) = bytes ++ decode rest := by
  induction bytes with
  | nil => rfl
  | cons b bytes ih =>
    rw [List.flatMap_cons, encode_append, List.append_assoc, decode_escape, ih, List.cons_append]

/-! ## Texts

Whatever is escaped, decoding gives the bytes of the text, as long as the percent sign itself is
escaped. -/

theorem decode_cons_of_ne {b : UInt8} (h : b ≠ 37) (rest : Bytes) :
    decode (b :: rest) = b :: decode rest := by
  rw [decode]
  intro c d rest' heq
  exact absurd heq h

variable {set : List Char} {c : Char}

theorem encode_cons_escaped (h : isEscaped set c = true) (cs : List Char) :
    encode set (c :: cs) = (String.utf8EncodeChar c).flatMap escape ++ encode set cs := by
  rw [encode, List.flatMap_cons, if_pos h, ← encode]

theorem encode_cons_plain (h : isEscaped set c = false) (cs : List Char) :
    encode set (c :: cs) = c :: encode set cs := by
  rw [encode, List.flatMap_cons, if_neg (by rw [h]; decide), ← encode, List.singleton_append]

/-- What is not escaped is a printable ASCII character that is not in the set. -/
theorem isEscaped_eq_false_iff :
    isEscaped set c = false ↔ 0x20 ≤ c.toNat ∧ c.toNat < 0x7F ∧ c ∉ set := by
  simp [isEscaped, and_assoc]

/-- **Decoding undoes encoding.** Induction on the characters; one that is not escaped is a byte of its
own, and no percent sign. -/
theorem decode_encode (hmark : '%' ∈ set) (cs : List Char) :
    decode (Utf8.encode (encode set cs)) = Utf8.encode cs := by
  induction cs with
  | nil => rfl
  | cons c cs ih =>
    cases hescaped : isEscaped set c with
    | true =>
      rw [encode_cons_escaped hescaped, encode_append, decode_escapes, ih, encode_cons]
    | false =>
      -- the percent sign is in the set, so it would have been escaped
      obtain ⟨-, hhigh, hnotMem⟩ := isEscaped_eq_false_iff.mp hescaped
      have hne : UInt8.ofNat c.toNat ≠ 37 := by
        intro heq
        have hval : c.toNat = '%'.toNat := (ofNat_eq (by omega)).mp heq
        exact hnotMem (Char.toNat_inj.mp hval ▸ hmark)
      have hbyte : String.utf8EncodeChar c = [UInt8.ofNat c.toNat] := encodeChar_ascii (by omega)
      rw [encode_cons_plain hescaped, encode_cons, encode_cons, hbyte, List.singleton_append,
        List.singleton_append, decode_cons_of_ne hne, ih]

/-- Different texts are encoded differently. -/
theorem encode_injective (hmark : '%' ∈ set) {cs ds : List Char}
    (h : encode set cs = encode set ds) : cs = ds := by
  have hbytes : Utf8.encode cs = Utf8.encode ds := by
    rw [← decode_encode hmark cs, h, decode_encode hmark ds]
  exact encode_inj.mp hbytes

/-- The characters that an escape can be written with. -/
theorem mem_escape {b : UInt8} {d : Char} (h : d ∈ escape b) :
    d = '%' ∨ ∃ n < 16, d = Hex.capital n := by
  have hb : b.toNat < 256 := b.toNat_lt
  simp only [escape, Hex.capitalPair, List.mem_cons, List.not_mem_nil, or_false] at h
  rcases h with rfl | rfl | rfl
  · exact .inl rfl
  · exact .inr ⟨_, by omega, rfl⟩
  · exact .inr ⟨_, by omega, rfl⟩

/-- A character of the set does not stand in an encoded text, unless escapes are written with it. -/
theorem notMem_encode {d : Char} (hset : d ∈ set) (hmark : d ≠ '%')
    (hdigit : ∀ n < 16, d ≠ Hex.capital n) (cs : List Char) : d ∉ encode set cs := by
  intro hmem
  obtain ⟨c, -, hc⟩ := List.mem_flatMap.mp hmem
  cases hescaped : isEscaped set c with
  | true =>
    rw [if_pos hescaped] at hc
    obtain ⟨b, -, hb⟩ := List.mem_flatMap.mp hc
    rcases mem_escape hb with heq | ⟨n, hn, heq⟩
    · exact hmark heq
    · exact hdigit n hn heq
  | false =>
    rw [if_neg (by rw [hescaped]; decide), List.mem_singleton] at hc
    exact (isEscaped_eq_false_iff.mp hescaped).2.2 (hc ▸ hset)

end Stowage.Percent
