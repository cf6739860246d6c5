import Mathlib.Tactic.Common
import Stowage.Text.Utf8
/-!
# Stowage — UTF-8 read back

What `Utf8.encode` writes is read back character by character: `piece_encodeChar` for the first
character of a byte string, `decode?_encode` for all of it. `pieces_cons` is the unfolding equation
that takes the place of the fuel in `pieces`.
-/

namespace Stowage.Utf8

/-! ## Bytes as numbers -/

theorem toNat_ofNat {n : Nat} (h : n < 256) : (UInt8.ofNat n).toNat = n := by
  rw [UInt8.toNat_ofNat']
  omega

theorem ofNat_lt {n : Nat} {b : UInt8} (h : n < 256) : UInt8.ofNat n < b ↔ n < b.toNat := by
  rw [UInt8.lt_iff_toNat_lt, toNat_ofNat h]

theorem ofNat_le {n : Nat} {b : UInt8} (h : n < 256) : UInt8.ofNat n ≤ b ↔ n ≤ b.toNat := by
  rw [UInt8.le_iff_toNat_le, toNat_ofNat h]

theorem le_ofNat {n : Nat} {b : UInt8} (h : n < 256) : b ≤ UInt8.ofNat n ↔ b.toNat ≤ n := by
  rw [UInt8.le_iff_toNat_le, toNat_ofNat h]

theorem ofNat_eq {n : Nat} {b : UInt8} (h : n < 256) : UInt8.ofNat n = b ↔ n = b.toNat := by
  rw [← UInt8.toNat_inj, toNat_ofNat h]

/-! ## One character

How many bytes a character takes depends on its code point. For each number of bytes, the first byte is
the lead that announces it. -/

/-- The bytes of a character, by its code point. -/
theorem encodeChar_eq (c : Char) :
    String.utf8EncodeChar c =
      if c.toNat ≤ 0x7f then [UInt8.ofNat c.toNat]
      else if c.toNat ≤ 0x7ff then
        [UInt8.ofNat (c.toNat / 64 % 0x20 + 0xc0), UInt8.ofNat (c.toNat % 0x40 + 0x80)]
      else if c.toNat ≤ 0xffff then
        [UInt8.ofNat (c.toNat / 4096 % 0x10 + 0xe0), UInt8.ofNat (c.toNat / 64 % 0x40 + 0x80),
          UInt8.ofNat (c.toNat % 0x40 + 0x80)]
      else
        [UInt8.ofNat (c.toNat / 262144 % 0x08 + 0xf0), UInt8.ofNat (c.toNat / 4096 % 0x40 + 0x80),
          UInt8.ofNat (c.toNat / 64 % 0x40 + 0x80), UInt8.ofNat (c.toNat % 0x40 + 0x80)] := rfl

/-- A byte that continues a character adds six bits to it. -/
theorem continuation_succ (more v : Nat) {x : Nat} (hx : x < 64) (rest : Bytes) :
    continuation (more + 1) v (UInt8.ofNat (x + 0x80) :: rest) =
      continuation more (v * 64 + x) rest := by
  have hbounds : (0x80 : UInt8) ≤ UInt8.ofNat (x + 0x80) ∧ UInt8.ofNat (x + 0x80) ≤ 0xBF := by
    rw [le_ofNat (by omega), ofNat_le (by omega)]
    show 128 ≤ x + 128 ∧ x + 128 ≤ 191
    omega
  rw [continuation, if_pos hbounds, toNat_ofNat (by omega), Nat.add_sub_cancel]

theorem continuation_zero (v : Nat) (rest : Bytes) :
    continuation 0 v rest = (.char (Char.ofNat v), rest) := rfl

/-- The lead of a character of two bytes or more, whose second byte is within its bounds. -/
theorem piece_lead {b : UInt8} {lead : Lead} {x : Nat} (hx : x < 64)
    (hb : ¬ b < 0x80) (hlead : Lead.ofByte? b = some lead)
    (hlow : lead.low.toNat ≤ x + 0x80) (hhigh : x + 0x80 ≤ lead.high.toNat) (rest : Bytes) :
    piece b (UInt8.ofNat (x + 0x80) :: rest) =
      continuation (lead.more - 1) (lead.bits * 64 + x) rest := by
  have hbounds : lead.low ≤ UInt8.ofNat (x + 0x80) ∧ UInt8.ofNat (x + 0x80) ≤ lead.high := by
    rw [le_ofNat (by omega), ofNat_le (by omega)]
    exact ⟨hlow, hhigh⟩
  rw [piece, if_neg hb, hlead]
  simp only
  rw [if_pos hbounds, toNat_ofNat (by omega), Nat.add_sub_cancel]

theorem ofByte?_two {x : Nat} (hlow : 2 ≤ x) (hhigh : x < 0x20) :
    Lead.ofByte? (UInt8.ofNat (x + 0xC0)) = some ⟨1, 0x80, 0xBF, x⟩ := by
  unfold Lead.ofByte?
  rw [if_neg (by rw [ofNat_lt (by omega)]; show ¬ x + 192 < 194; omega),
    if_pos (by rw [ofNat_lt (by omega)]; show x + 192 < 224; omega), toNat_ofNat (by omega)]
  simp

/-- The lead byte of three, with the bounds that leave out overlong forms and surrogates. -/
theorem ofByte?_three {x : Nat} (hx : x < 0x10) :
    Lead.ofByte? (UInt8.ofNat (x + 0xE0)) =
      some ⟨2, if x = 0 then 0xA0 else 0x80, if x = 13 then 0x9F else 0xBF, x⟩ := by
  unfold Lead.ofByte?
  rw [if_neg (by rw [ofNat_lt (by omega)]; show ¬ x + 224 < 194; omega),
    if_neg (by rw [ofNat_lt (by omega)]; show ¬ x + 224 < 224; omega),
    if_pos (by rw [ofNat_lt (by omega)]; show x + 224 < 240; omega), toNat_ofNat (by omega)]
  have hzero : UInt8.ofNat (x + 0xE0) = 0xE0 ↔ x = 0 := by
    rw [ofNat_eq (by omega)]
    show x + 224 = 224 ↔ x = 0
    omega
  have hthirteen : UInt8.ofNat (x + 0xE0) = 0xED ↔ x = 13 := by
    rw [ofNat_eq (by omega)]
    show x + 224 = 237 ↔ x = 13
    omega
  simp only [hzero, hthirteen, Nat.add_sub_cancel]

/-- The lead byte of four, with the bounds that leave out overlong forms and too large values. -/
theorem ofByte?_four {x : Nat} (hx : x < 5) :
    Lead.ofByte? (UInt8.ofNat (x + 0xF0)) =
      some ⟨3, if x = 0 then 0x90 else 0x80, if x = 4 then 0x8F else 0xBF, x⟩ := by
  unfold Lead.ofByte?
  rw [if_neg (by rw [ofNat_lt (by omega)]; show ¬ x + 240 < 194; omega),
    if_neg (by rw [ofNat_lt (by omega)]; show ¬ x + 240 < 224; omega),
    if_neg (by rw [ofNat_lt (by omega)]; show ¬ x + 240 < 240; omega),
    if_pos (by rw [ofNat_lt (by omega)]; show x + 240 < 245; omega), toNat_ofNat (by omega)]
  have hzero : UInt8.ofNat (x + 0xF0) = 0xF0 ↔ x = 0 := by
    rw [ofNat_eq (by omega)]
    show x + 240 = 240 ↔ x = 0
    omega
  have hfour : UInt8.ofNat (x + 0xF0) = 0xF4 ↔ x = 4 := by
    rw [ofNat_eq (by omega)]
    show x + 240 = 244 ↔ x = 4
    omega
  simp only [hzero, hfour, Nat.add_sub_cancel]

theorem not_ofNat_lt_80 {n : Nat} (hlow : 0x80 ≤ n) (hhigh : n < 256) : ¬ UInt8.ofNat n < 0x80 := by
  rw [ofNat_lt hhigh]
  show ¬ n < 128
  omega

/-- **Reading one character back.** The bytes of a character start with a byte, from which the
character is read and the bytes after it are left. The cases are the four lengths. -/
theorem piece_encodeChar (c : Char) (rest : Bytes) :
    ∃ b more, String.utf8EncodeChar c = b :: more ∧ piece b (more ++ rest) = (.char c, rest) := by
  have hvalid : c.toNat < 0xd800 ∨ (0xdfff < c.toNat ∧ c.toNat < 0x110000) := c.valid
  have hback : Char.ofNat c.toNat = c := c.ofNat_toNat
  rw [encodeChar_eq]
  -- from here on only the code point matters
  generalize c.toNat = v at hvalid hback
  by_cases hone : v ≤ 0x7f
  · rw [if_pos hone]
    refine ⟨_, [], rfl, ?_⟩
    rw [List.nil_append, piece,
      if_pos (by rw [ofNat_lt (by omega)]; show v < 128; omega), toNat_ofNat (by omega), hback]
  by_cases htwo : v ≤ 0x7ff
  · rw [if_neg hone, if_pos htwo]
    refine ⟨_, [_], rfl, ?_⟩
    rw [List.cons_append, List.nil_append,
      piece_lead (by omega) (not_ofNat_lt_80 (by omega) (by omega))
        (ofByte?_two (by omega) (by omega)) (by show 128 ≤ _; omega) (by show _ ≤ 191; omega)]
    show continuation 0 (v / 64 % 0x20 * 64 + v % 0x40) rest = _
    rw [continuation_zero, show v / 64 % 0x20 * 64 + v % 0x40 = v by omega, hback]
  by_cases hthree : v ≤ 0xffff
  · rw [if_neg hone, if_neg htwo, if_pos hthree]
    refine ⟨_, [_, _], rfl, ?_⟩
    -- the bounds of the second byte leave out overlong forms and surrogates, which `c` is not
    have hlow : (if v / 4096 % 0x10 = 0 then (0xA0 : UInt8) else 0x80).toNat ≤
        v / 64 % 0x40 + 0x80 := by
      split
      · show 160 ≤ _; omega
      · show 128 ≤ _; omega
    have hhigh : v / 64 % 0x40 + 0x80 ≤
        (if v / 4096 % 0x10 = 13 then (0x9F : UInt8) else 0xBF).toNat := by
      split
      · show _ ≤ 159; omega
      · show _ ≤ 191; omega
    rw [List.cons_append, List.cons_append, List.nil_append,
      piece_lead (by omega) (not_ofNat_lt_80 (by omega) (by omega)) (ofByte?_three (by omega))
        hlow hhigh]
    show continuation (0 + 1) (v / 4096 % 0x10 * 64 + v / 64 % 0x40) _ = _
    rw [continuation_succ _ _ (by omega), continuation_zero,
      show (v / 4096 % 0x10 * 64 + v / 64 % 0x40) * 64 + v % 0x40 = v by omega, hback]
  · rw [if_neg hone, if_neg htwo, if_neg hthree]
    refine ⟨_, [_, _, _], rfl, ?_⟩
    have hlow : (if v / 262144 % 0x08 = 0 then (0x90 : UInt8) else 0x80).toNat ≤
        v / 4096 % 0x40 + 0x80 := by
      split
      · show 144 ≤ _; omega
      · show 128 ≤ _; omega
    have hhigh : v / 4096 % 0x40 + 0x80 ≤
        (if v / 262144 % 0x08 = 4 then (0x8F : UInt8) else 0xBF).toNat := by
      split
      · show _ ≤ 143; omega
      · show _ ≤ 191; omega
    rw [List.cons_append, List.cons_append, List.cons_append, List.nil_append,
      piece_lead (by omega) (not_ofNat_lt_80 (by omega) (by omega)) (ofByte?_four (by omega))
        hlow hhigh]
    show continuation (0 + 1 + 1) (v / 262144 % 0x08 * 64 + v / 4096 % 0x40) _ = _
    rw [continuation_succ _ _ (by omega), continuation_succ _ _ (by omega), continuation_zero,
      show ((v / 262144 % 0x08 * 64 + v / 4096 % 0x40) * 64 + v / 64 % 0x40) * 64 + v % 0x40 = v by
        omega, hback]

theorem encodeChar_ascii {c : Char} (h : c.toNat < 0x80) :
    String.utf8EncodeChar c = [UInt8.ofNat c.toNat] :=
  if_pos (show c.toNat ≤ 0x7f by omega)

/-- The bytes of the other characters are all above the ASCII range. -/
theorem le_of_mem_encodeChar {c : Char} (h : 0x80 ≤ c.toNat) {b : UInt8}
    (hb : b ∈ String.utf8EncodeChar c) : 0x80 ≤ b.toNat := by
  have hvalid : c.toNat < 0xd800 ∨ (0xdfff < c.toNat ∧ c.toNat < 0x110000) := c.valid
  have hbytes : ∃ n, 0x80 ≤ n ∧ n < 256 ∧ b = UInt8.ofNat n := by
    rw [encodeChar_eq, if_neg (by omega)] at hb
    split at hb
    · simp only [List.mem_cons, List.not_mem_nil, or_false] at hb
      rcases hb with rfl | rfl
      all_goals exact ⟨_, by omega, by omega, rfl⟩
    split at hb
    · simp only [List.mem_cons, List.not_mem_nil, or_false] at hb
      rcases hb with rfl | rfl | rfl
      all_goals exact ⟨_, by omega, by omega, rfl⟩
    · simp only [List.mem_cons, List.not_mem_nil, or_false] at hb
      rcases hb with rfl | rfl | rfl | rfl
      all_goals exact ⟨_, by omega, by omega, rfl⟩
  obtain ⟨n, hlow, hhigh, rfl⟩ := hbytes
  rwa [toNat_ofNat hhigh]

/-! ## All characters

Reading takes one character at a time, so the bytes of a text are read as its characters, whatever
stands behind them. -/

theorem length_continuation_le (more v : Nat) (rest : Bytes) :
    (continuation more v rest).2.length ≤ rest.length := by
  induction more generalizing v rest with
  | zero => exact Nat.le_refl _
  | succ more ih =>
    cases rest with
    | nil => exact Nat.le_refl _
    | cons b rest =>
      rw [continuation]
      split
      · have := ih (v * 64 + (b.toNat - 0x80)) rest
        rw [List.length_cons]
        omega
      · exact Nat.le_refl _

theorem length_piece_le (b : UInt8) (rest : Bytes) : (piece b rest).2.length ≤ rest.length := by
  rw [piece]
  split
  · exact Nat.le_refl _
  · cases Lead.ofByte? b with
    | none => exact Nat.le_refl _
    | some lead =>
      cases rest with
      | nil => exact Nat.le_refl _
      | cons c rest =>
        simp only
        split
        · have := length_continuation_le (lead.more - 1) (lead.bits * 64 + (c.toNat - 0x80)) rest
          rw [List.length_cons]
          omega
        · exact Nat.le_refl _

/-- Once the fuel suffices, more of it changes nothing, and what was read before stays below. -/
theorem piecesOnto_eq (fuel : Nat) (acc : List Piece) (bytes : Bytes) (h : bytes.length ≤ fuel) :
    piecesOnto fuel acc bytes = (pieces bytes).reverse ++ acc := by
  -- compares any two amounts of fuel; what has been read does not influence what is read next
  have hall : ∀ (size fuel : Nat) (bytes : Bytes), bytes.length ≤ size → bytes.length ≤ fuel →
      ∀ acc, piecesOnto fuel acc bytes = piecesOnto size [] bytes ++ acc := by
    intro size
    induction size with
    | zero =>
      intro fuel bytes hsize _ acc
      have hnil : bytes = [] := List.eq_nil_of_length_eq_zero (by omega)
      subst hnil
      cases fuel <;> rfl
    | succ size ih =>
      intro fuel bytes hsize hfuel acc
      cases bytes with
      | nil => cases fuel <;> rfl
      | cons b rest =>
        have hrest := length_piece_le b rest
        rw [List.length_cons] at hsize hfuel
        cases fuel with
        | zero => omega
        | succ fuel =>
          rw [piecesOnto, piecesOnto, ih fuel _ (by omega) (by omega) ((piece b rest).1 :: acc),
            ih size _ (by omega) (by omega) [(piece b rest).1], List.append_assoc,
            List.singleton_append]
  rw [hall bytes.length fuel bytes (Nat.le_refl _) h, pieces, List.reverse_reverse]

theorem pieces_cons (b : UInt8) (rest : Bytes) :
    pieces (b :: rest) = (piece b rest).1 :: pieces (piece b rest).2 := by
  rw [pieces, List.length_cons, piecesOnto, piecesOnto_eq _ _ _ (length_piece_le b rest),
    List.reverse_append, List.reverse_reverse]
  rfl

@[simp] theorem pieces_nil : pieces [] = [] := rfl

@[simp] theorem encode_nil : encode [] = [] := rfl

theorem encode_cons (c : Char) (cs : List Char) :
    encode (c :: cs) = String.utf8EncodeChar c ++ encode cs := rfl

theorem encode_append (cs ds : List Char) : encode (cs ++ ds) = encode cs ++ encode ds :=
  List.flatMap_append

theorem pieces_encode_append (cs : List Char) (rest : Bytes) :
    pieces (encode cs ++ rest) = cs.map Piece.char ++ pieces rest := by
  induction cs with
  | nil => rfl
  | cons c cs ih =>
    obtain ⟨b, more, hbytes, hpiece⟩ := piece_encodeChar c (encode cs ++ rest)
    rw [encode_cons, hbytes, List.cons_append, List.cons_append, List.append_assoc, pieces_cons,
      hpiece, ih]
    rfl

/-- The bytes of a text are whole characters. -/
theorem pieces_encode (cs : List Char) : pieces (encode cs) = cs.map Piece.char := by
  have h := pieces_encode_append cs []
  rwa [List.append_nil, pieces_nil, List.append_nil] at h

/-- Written text is read back. -/
theorem decode?_encode (cs : List Char) : decode? (encode cs) = some (String.ofList cs) := by
  have hall : (cs.map Piece.char).all Piece.isChar = true := by
    rw [List.all_map]
    exact List.all_eq_true.mpr fun c _ => rfl
  have hmap : (cs.map Piece.char).map Piece.toChar = cs := by
    rw [List.map_map]
    exact List.map_id' cs
  rw [decode?, pieces_encode]
  simp only [hall, if_true, hmap]

/-- A text loses nothing when it is decoded. -/
theorem decodeLossy_encode (cs : List Char) : decodeLossy (encode cs) = String.ofList cs := by
  rw [decodeLossy, pieces_encode, List.map_map]
  exact congrArg String.ofList (List.map_id' cs)

/-- Texts are as different as their bytes. -/
theorem encode_inj {cs ds : List Char} : encode cs = encode ds ↔ cs = ds := by
  constructor
  · intro h
    have htexts := congrArg decode? h
    rw [decode?_encode, decode?_encode] at htexts
    exact String.ofList_inj.mp (Option.some.inj htexts)
  · rintro rfl
    rfl

end Stowage.Utf8
