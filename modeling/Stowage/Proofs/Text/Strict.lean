import Mathlib.Data.List.Basic
import Stowage.Proofs.Text.Utf8
/-!
# Stowage — UTF-8 read strictly

Only the bytes of a character are read as that character (`piece_eq_char`): no overlong form, no
surrogate and nothing above U+10FFFF is within the bounds that its lead byte sets. So strict decoding
accepts exactly the bytes of texts (`decode?_eq_some_iff`).
-/

namespace Stowage.Utf8

/-! ## Characters of two bytes or more

Six bits of a code point go into each byte after the first, so a character is determined by the bits in
its bytes. -/

theorem toNat_char {v : Nat} (h : v < 0xd800 ∨ 0xdfff < v ∧ v < 0x110000) :
    (Char.ofNat v).toNat = v := by
  rw [Char.ofNat, dif_pos h]
  rfl

/-- A character of two bytes, from the bits in them. -/
theorem encodeChar_two {x y : Nat} (hlow : 2 ≤ x) (hx : x < 0x20) (hy : y < 64) :
    String.utf8EncodeChar (Char.ofNat (x * 64 + y)) =
      [UInt8.ofNat (x + 0xC0), UInt8.ofNat (y + 0x80)] := by
  rw [encodeChar_eq, toNat_char (by omega), if_neg (by omega), if_pos (by omega),
    show (x * 64 + y) / 64 % 0x20 = x by omega, show (x * 64 + y) % 0x40 = y by omega]

/-- A character of three bytes, from the bits in them. Bounds on the second byte leave out overlong
forms and surrogates. -/
theorem encodeChar_three {x y z : Nat} (hx : x < 0x10) (hy : y < 64) (hz : z < 64)
    (hlow : x = 0 → 0x20 ≤ y) (hsurrogate : x = 13 → y < 0x20) :
    String.utf8EncodeChar (Char.ofNat ((x * 64 + y) * 64 + z)) =
      [UInt8.ofNat (x + 0xE0), UInt8.ofNat (y + 0x80), UInt8.ofNat (z + 0x80)] := by
  rw [encodeChar_eq, toNat_char (by omega), if_neg (by omega), if_neg (by omega), if_pos (by omega),
    show ((x * 64 + y) * 64 + z) / 4096 % 0x10 = x by omega,
    show ((x * 64 + y) * 64 + z) / 64 % 0x40 = y by omega,
    show ((x * 64 + y) * 64 + z) % 0x40 = z by omega]

/-- A character of four bytes, from the bits in them. Bounds on the second byte leave out overlong forms
and what is beyond Unicode. -/
theorem encodeChar_four {x y z w : Nat} (hx : x < 5) (hy : y < 64) (hz : z < 64) (hw : w < 64)
    (hlow : x = 0 → 0x10 ≤ y) (hhigh : x = 4 → y < 0x10) :
    String.utf8EncodeChar (Char.ofNat (((x * 64 + y) * 64 + z) * 64 + w)) =
      [UInt8.ofNat (x + 0xF0), UInt8.ofNat (y + 0x80), UInt8.ofNat (z + 0x80),
        UInt8.ofNat (w + 0x80)] := by
  rw [encodeChar_eq, toNat_char (by omega), if_neg (by omega), if_neg (by omega), if_neg (by omega),
    show (((x * 64 + y) * 64 + z) * 64 + w) / 262144 % 0x08 = x by omega,
    show (((x * 64 + y) * 64 + z) * 64 + w) / 4096 % 0x40 = y by omega,
    show (((x * 64 + y) * 64 + z) * 64 + w) / 64 % 0x40 = z by omega,
    show (((x * 64 + y) * 64 + z) * 64 + w) % 0x40 = w by omega]

/-! ## Lead and further bytes -/

theorem ofByte?_none {n : Nat} (hn : n < 256) (h : n < 0xC2 ∨ 0xF5 ≤ n) :
    Lead.ofByte? (UInt8.ofNat n) = none := by
  unfold Lead.ofByte?
  rcases h with hlow | hhigh
  · rw [if_pos (by rw [ofNat_lt hn]; exact hlow)]
  · rw [if_neg (by rw [ofNat_lt hn]; show ¬ n < 194; omega),
      if_neg (by rw [ofNat_lt hn]; show ¬ n < 224; omega),
      if_neg (by rw [ofNat_lt hn]; show ¬ n < 240; omega),
      if_neg (by rw [ofNat_lt hn]; show ¬ n < 245; omega)]

/-- The lead bytes, with what they announce. -/
theorem ofByte?_eq_some {b : UInt8} {lead : Lead} (h : Lead.ofByte? b = some lead) :
    (∃ x, 2 ≤ x ∧ x < 0x20 ∧ b = UInt8.ofNat (x + 0xC0) ∧ lead = ⟨1, 0x80, 0xBF, x⟩) ∨
      (∃ x, x < 0x10 ∧ b = UInt8.ofNat (x + 0xE0) ∧
        lead = ⟨2, if x = 0 then 0xA0 else 0x80, if x = 13 then 0x9F else 0xBF, x⟩) ∨
      ∃ x, x < 5 ∧ b = UInt8.ofNat (x + 0xF0) ∧
        lead = ⟨3, if x = 0 then 0x90 else 0x80, if x = 4 then 0x8F else 0xBF, x⟩ := by
  obtain ⟨n, hn, rfl⟩ : ∃ n, n < 256 ∧ b = UInt8.ofNat n :=
    ⟨b.toNat, b.toNat_lt, UInt8.ofNat_toNat.symm⟩
  -- the lead bytes in order: those that lead nothing, then those of two, three and four bytes
  by_cases hnone : n < 0xC2 ∨ 0xF5 ≤ n
  · rw [ofByte?_none hn hnone] at h
    cases h
  by_cases htwo : n < 0xE0
  · obtain ⟨x, rfl⟩ : ∃ x, n = x + 0xC0 := ⟨n - 0xC0, by omega⟩
    rw [ofByte?_two (by omega) (by omega)] at h
    exact .inl ⟨x, by omega, by omega, rfl, (Option.some.inj h).symm⟩
  by_cases hthree : n < 0xF0
  · obtain ⟨x, rfl⟩ : ∃ x, n = x + 0xE0 := ⟨n - 0xE0, by omega⟩
    rw [ofByte?_three (by omega)] at h
    exact .inr (.inl ⟨x, by omega, rfl, (Option.some.inj h).symm⟩)
  · obtain ⟨x, rfl⟩ : ∃ x, n = x + 0xF0 := ⟨n - 0xF0, by omega⟩
    rw [ofByte?_four (by omega)] at h
    exact .inr (.inr ⟨x, by omega, rfl, (Option.some.inj h).symm⟩)

/-- A byte that continues a character carries six bits of it. -/
theorem exists_tail {b : UInt8} (h : 0x80 ≤ b ∧ b ≤ 0xBF) :
    ∃ x, x < 64 ∧ b = UInt8.ofNat (x + 0x80) ∧ b.toNat - 0x80 = x := by
  have hlow : 128 ≤ b.toNat := UInt8.le_iff_toNat_le.mp h.1
  have hhigh : b.toNat ≤ 191 := UInt8.le_iff_toNat_le.mp h.2
  exact ⟨b.toNat - 0x80, by omega, ((ofNat_eq (by omega)).mpr (by omega)).symm, rfl⟩

/-- A character is read off as many bytes as are announced. -/
theorem continuation_eq_char {more : Nat} : ∀ {v : Nat} {bytes : Bytes} {c : Char} {left : Bytes},
    continuation more v bytes = (.char c, left) →
      ∃ xs : List Nat, xs.length = more ∧ (∀ x ∈ xs, x < 64) ∧
        bytes = xs.map (fun x => UInt8.ofNat (x + 0x80)) ++ left ∧
        c = Char.ofNat (xs.foldl (fun v x => v * 64 + x) v) := by
  -- the value gathered so far goes into the fold, so it is general in the induction
  induction more with
  | zero =>
    intro v bytes c left h
    rw [continuation_zero] at h
    obtain ⟨hc, rfl⟩ := Prod.mk.inj h
    exact ⟨[], rfl, fun x hx => absurd hx List.not_mem_nil, rfl, (Piece.char.inj hc).symm⟩
  | succ more ih =>
    intro v bytes c left h
    cases bytes with
    | nil => cases h
    | cons b rest =>
      rw [continuation] at h
      split at h
      · rename_i hbounds
        obtain ⟨x, hx, hb, hbits⟩ := exists_tail hbounds
        rw [hbits] at h
        obtain ⟨xs, rfl, hxs, rfl, rfl⟩ := ih h
        exact ⟨x :: xs, rfl, List.forall_mem_cons.mpr ⟨hx, hxs⟩, by rw [hb]; rfl, rfl⟩
      · cases h

/-- A lower bound that is raised in one case. -/
theorem of_ite_le {p : Prop} [Decidable p] {usual strict : UInt8} {n : Nat}
    (h : (if p then strict else usual).toNat ≤ n) (hle : usual ≤ strict) :
    usual.toNat ≤ n ∧ (p → strict.toNat ≤ n) := by
  split at h
  · exact ⟨Nat.le_trans (UInt8.le_iff_toNat_le.mp hle) h, fun _ => h⟩
  · exact ⟨h, fun hp => absurd hp ‹_›⟩

/-- An upper bound that is lowered in one case. -/
theorem of_le_ite {p : Prop} [Decidable p] {usual strict : UInt8} {n : Nat}
    (h : n ≤ (if p then strict else usual).toNat) (hle : strict ≤ usual) :
    n ≤ usual.toNat ∧ (p → n ≤ strict.toNat) := by
  split at h
  · exact ⟨Nat.le_trans h (UInt8.le_iff_toNat_le.mp hle), fun _ => h⟩
  · exact ⟨h, fun hp => absurd hp ‹_›⟩

/-- A character is read off its lead, a byte within the bounds of the lead, and further bytes. -/
theorem piece_lead_eq_char {b : UInt8} {rest left : Bytes} {c : Char} (hb : ¬ b < 0x80)
    (h : piece b rest = (.char c, left)) :
    ∃ (lead : Lead) (d : UInt8) (more : Bytes), Lead.ofByte? b = some lead ∧ rest = d :: more ∧
      lead.low ≤ d ∧ d ≤ lead.high ∧
      continuation (lead.more - 1) (lead.bits * 64 + (d.toNat - 0x80)) more = (.char c, left) := by
  rw [piece, if_neg hb] at h
  cases hlead : Lead.ofByte? b with
  | none =>
    rw [hlead] at h
    cases h
  | some lead =>
    rw [hlead] at h
    cases rest with
    | nil => cases h
    | cons d more =>
      simp only at h
      split at h
      · rename_i hbounds
        exact ⟨lead, d, more, rfl, rfl, hbounds.1, hbounds.2, h⟩
      · cases h

/-- **Only the bytes of a character are read as that character.** The cases are the four lengths. -/
theorem piece_eq_char {b : UInt8} {rest left : Bytes} {c : Char}
    (h : piece b rest = (.char c, left)) : b :: rest = String.utf8EncodeChar c ++ left := by
  by_cases hascii : b < 0x80
  · have hlt : b.toNat < 128 := UInt8.lt_iff_toNat_lt.mp hascii
    rw [piece, if_pos hascii] at h
    obtain ⟨hc, rfl⟩ := Prod.mk.inj h
    rw [← Piece.char.inj hc, encodeChar_ascii (by rw [toNat_char (by omega)]; exact hlt),
      toNat_char (by omega), UInt8.ofNat_toNat]
    rfl
  obtain ⟨lead, d, more, hlead, rfl, hlow, hhigh, hmore⟩ := piece_lead_eq_char hascii h
  obtain ⟨xs, hlength, hxs, rfl, rfl⟩ := continuation_eq_char hmore
  have hlow : lead.low.toNat ≤ d.toNat := UInt8.le_iff_toNat_le.mp hlow
  have hhigh : d.toNat ≤ lead.high.toNat := UInt8.le_iff_toNat_le.mp hhigh
  -- the second byte, by the six bits it carries
  obtain ⟨y, hy⟩ : ∃ y, d.toNat - 0x80 = y := ⟨_, rfl⟩
  have hd (h : 0x80 ≤ d.toNat) : d = UInt8.ofNat (y + 0x80) :=
    ((ofNat_eq (by have := d.toNat_lt; omega)).mpr (by omega)).symm
  rw [hy]
  rcases ofByte?_eq_some hlead with ⟨x, hx, hx', rfl, rfl⟩ | ⟨x, hx, rfl, rfl⟩ | ⟨x, hx, rfl, rfl⟩
  · obtain rfl := List.eq_nil_of_length_eq_zero hlength
    change 128 ≤ d.toNat at hlow
    change d.toNat ≤ 191 at hhigh
    show _ = String.utf8EncodeChar (Char.ofNat (x * 64 + y)) ++ left
    rw [encodeChar_two hx hx' (by omega), hd hlow]
    rfl
  · obtain ⟨z, rfl⟩ := List.length_eq_one_iff.mp hlength
    have hz := hxs z (List.mem_singleton_self z)
    have hlow : 128 ≤ d.toNat ∧ (x = 0 → 160 ≤ d.toNat) := of_ite_le hlow (by decide)
    have hhigh : d.toNat ≤ 191 ∧ (x = 13 → d.toNat ≤ 159) := of_le_ite hhigh (by decide)
    show _ = String.utf8EncodeChar (Char.ofNat ((x * 64 + y) * 64 + z)) ++ left
    rw [encodeChar_three hx (by omega) hz (by omega) (by omega), hd (by omega)]
    rfl
  · obtain ⟨z, w, rfl⟩ := List.length_eq_two.mp hlength
    have hz := hxs z (List.mem_cons_self ..)
    have hw := hxs w (List.mem_cons_of_mem _ (List.mem_singleton_self w))
    have hlow : 128 ≤ d.toNat ∧ (x = 0 → 144 ≤ d.toNat) := of_ite_le hlow (by decide)
    have hhigh : d.toNat ≤ 191 ∧ (x = 4 → d.toNat ≤ 143) := of_le_ite hhigh (by decide)
    show _ = String.utf8EncodeChar (Char.ofNat (((x * 64 + y) * 64 + z) * 64 + w)) ++ left
    rw [encodeChar_four hx (by omega) hz hw (by omega) (by omega), hd (by omega)]
    rfl

theorem Piece.char_toChar {p : Piece} (h : p.isChar = true) : Piece.char p.toChar = p := by
  cases p with
  | char c => rfl
  | broken => cases h

/-- Bytes that are pieces of whole characters are the bytes of those characters. -/
theorem eq_encode_of_pieces {cs : List Char} :
    ∀ {bytes : Bytes}, pieces bytes = cs.map Piece.char → bytes = encode cs := by
  induction cs with
  | nil =>
    intro bytes h
    cases bytes with
    | nil => rfl
    | cons b rest =>
      rw [pieces_cons] at h
      cases h
  | cons c cs ih =>
    intro bytes h
    cases bytes with
    | nil => cases h
    | cons b rest =>
      rw [pieces_cons, List.map_cons] at h
      obtain ⟨hfirst, hrest⟩ := List.cons.inj h
      rw [encode_cons, ← ih hrest]
      exact piece_eq_char (Prod.ext hfirst rfl)

/-- **Strict decoding** accepts exactly the bytes of texts. -/
theorem decode?_eq_some_iff {bytes : Bytes} {text : String} :
    decode? bytes = some text ↔ bytes = utf8 text := by
  constructor
  · intro h
    obtain ⟨hall, htext⟩ := Option.ite_none_right_eq_some.mp h
    have hchars : pieces bytes = text.toList.map Piece.char := by
      rw [← Option.some.inj htext, String.toList_ofList, List.map_map]
      refine ((List.map_congr_left fun p hp => ?_).trans (List.map_id _)).symm
      exact Piece.char_toChar (List.all_eq_true.mp hall p hp)
    exact eq_encode_of_pieces hchars
  · rintro rfl
    rw [utf8, decode?_encode, String.ofList_toList]

/-- An overlong form, a surrogate and a value above U+10FFFF are refused. -/
example :
    decode? [0xE0, 0x80, 0x80] = none ∧ decode? [0xED, 0xA0, 0x80] = none ∧
      decode? [0xF4, 0x90, 0x80, 0x80] = none := by decide

end Stowage.Utf8
