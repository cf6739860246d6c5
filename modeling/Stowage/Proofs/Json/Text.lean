import Stowage.Json.Printer
import Stowage.Json.Reader
import Stowage.Proofs.Text.Utf8
/-!
# Stowage — JSON strings read back

A printed string is read back whatever its characters are: `text_printString`. The reader goes byte
by byte and the printer character by character, so the step between them is `stringOnto_escape`: what
is written for one character is read as the bytes of that character.
-/

namespace Stowage.Json

/-- Reading with more fuel than bytes: the head of the unread bytes is looked at. -/
theorem stringOnto_cons (fuel : Nat) (acc : Bytes) (b : UInt8) (unread : Bytes) :
    stringOnto (fuel + 1) acc (b :: unread) =
      if b = 34 then .ok (acc.reverse, unread)
      else if b = 92 then
        match escapeSequence unread with
        | .error stop => .error stop
        | .ok (bytes, unread) => stringOnto fuel (bytes.reverse ++ acc) unread
      else if b < 32 then Stop.atByte .controlCharacter unread
      else stringOnto fuel (b :: acc) unread := rfl

/-- A byte that a string can hold as it is: no quote, no backslash, no control. -/
def IsPlain (b : UInt8) : Prop := b ≠ 34 ∧ b ≠ 92 ∧ ¬ b < 32

/-- Plain bytes are read as they are. Induction on the bytes. -/
theorem stringOnto_plain {bytes : Bytes} (hplain : ∀ b ∈ bytes, IsPlain b) :
    ∀ (fuel : Nat) (acc rest : Bytes),
      stringOnto (bytes.length + fuel) acc (bytes ++ rest) =
        stringOnto fuel (bytes.reverse ++ acc) rest := by
  induction bytes with
  | nil => intro fuel acc rest; rw [List.length_nil, Nat.zero_add]; rfl
  | cons b bytes ih =>
    intro fuel acc rest
    obtain ⟨hquote, hback, hcontrol⟩ := hplain b (List.mem_cons_self ..)
    rw [List.length_cons, List.cons_append, show bytes.length + 1 + fuel = bytes.length + fuel + 1 by
      omega, stringOnto_cons, if_neg hquote, if_neg hback, if_neg hcontrol,
      ih (fun x hx => hplain x (List.mem_cons_of_mem _ hx)), List.reverse_cons, List.append_assoc]
    rfl

/-- An escape is read as the bytes that it stands for. -/
theorem stringOnto_backslash (fuel : Nat) (acc : Bytes) {unread rest bytes : Bytes}
    (h : escapeSequence unread = .ok (bytes, rest)) :
    stringOnto (fuel + 1) acc (92 :: unread) = stringOnto fuel (bytes.reverse ++ acc) rest := by
  rw [stringOnto_cons, if_neg (by decide), if_pos rfl, h]

/-! ## The escapes that are written

Quotes, backslashes and controls are written as escapes, and everything else as it is. So a
character is written as its own bytes, as a backslash and a letter, or as an escape with four digits. -/

/-- A hexadecimal digit that is written is read. -/
theorem ofByte?_digitChar :
    ∀ d, d < 16 → Hex.ofByte? (UInt8.ofNat (Nat.digitChar d).toNat) = some d := by decide

theorem digitChar_ascii : ∀ d, d < 16 → (Nat.digitChar d).toNat < 0x80 := by decide

/-- The escape of a control without a letter of its own. -/
theorem escapeSequence_control {n : Nat} (hn : n < 0x20) (rest : Bytes) :
    escapeSequence
        (117 :: 48 :: 48 :: UInt8.ofNat (Nat.digitChar (n / 16)).toNat ::
          UInt8.ofNat (Nat.digitChar (n % 16)).toNat :: rest) =
      .ok (String.utf8EncodeChar (Char.ofNat n), rest) := by
  have hhex : hexEscape (48 :: 48 :: UInt8.ofNat (Nat.digitChar (n / 16)).toNat ::
      UInt8.ofNat (Nat.digitChar (n % 16)).toNat :: rest) = .ok (n, rest) := by
    rw [hexEscape, show Hex.ofByte? 48 = some 0 from by decide,
      ofByte?_digitChar _ (by omega), ofByte?_digitChar _ (by omega)]
    simp only [Except.ok.injEq, Prod.mk.injEq, and_true]
    omega
  rw [escapeSequence, show shortEscape? 117 = none from by decide]
  simp only [if_true]
  rw [hhex]
  show (if 0xDC00 ≤ n ∧ n ≤ 0xDFFF then _ else if 0xD800 ≤ n ∧ n ≤ 0xDBFF then _ else _) = _
  -- a control is no half of a surrogate pair
  rw [if_neg (by omega), if_neg (by omega)]

/-- `EscapesTo c bytes`: after a backslash, `bytes` is an escape for `c`. -/
def EscapesTo (c : Char) (bytes : Bytes) : Prop :=
  ∀ rest, escapeSequence (bytes ++ rest) = .ok (String.utf8EncodeChar c, rest)

/-- What is written for a character: the character itself if its bytes are plain, else an escape. -/
theorem encode_escape_cases (c : Char) :
    (Utf8.encode (escape c) = String.utf8EncodeChar c ∧
        ∀ b ∈ String.utf8EncodeChar c, IsPlain b) ∨
      ∃ bytes, Utf8.encode (escape c) = 92 :: bytes ∧ EscapesTo c bytes := by
  unfold escape
  by_cases h1 : c = '"'
  · subst h1
    exact .inr ⟨[34], by decide, fun rest => rfl⟩
  by_cases h2 : c = '\\'
  · subst h2
    exact .inr ⟨[92], by decide, fun rest => rfl⟩
  by_cases h3 : c = '\x08'
  · subst h3
    exact .inr ⟨[98], by decide, fun rest => rfl⟩
  by_cases h4 : c = '\x0c'
  · subst h4
    exact .inr ⟨[102], by decide, fun rest => rfl⟩
  by_cases h5 : c = '\n'
  · subst h5
    exact .inr ⟨[110], by decide, fun rest => rfl⟩
  by_cases h6 : c = '\r'
  · subst h6
    exact .inr ⟨[114], by decide, fun rest => rfl⟩
  by_cases h7 : c = '\t'
  · subst h7
    exact .inr ⟨[116], by decide, fun rest => rfl⟩
  rw [if_neg h1, if_neg h2, if_neg h3, if_neg h4, if_neg h5, if_neg h6, if_neg h7]
  -- none of the short escapes: a control is spelled in hexadecimal, all else stands for itself
  by_cases hcontrol : c.toNat < 0x20
  · rw [if_pos hcontrol]
    refine .inr ⟨117 :: 48 :: 48 :: UInt8.ofNat (Nat.digitChar (c.toNat / 16)).toNat ::
      UInt8.ofNat (Nat.digitChar (c.toNat % 16)).toNat :: [], ?_, fun rest => ?_⟩
    · simp only [Utf8.encode_cons, Utf8.encode_nil,
        Utf8.encodeChar_ascii (digitChar_ascii (c.toNat / 16) (by omega)),
        Utf8.encodeChar_ascii (digitChar_ascii (c.toNat % 16) (by omega))]
      rfl
    · have h := escapeSequence_control hcontrol rest
      rw [Char.ofNat_toNat] at h
      exact h
  · rw [if_neg hcontrol]
    refine .inl ⟨by rw [Utf8.encode_cons, Utf8.encode_nil, List.append_nil], fun b hb => ?_⟩
    -- below U+0080 the byte is the character, above it no byte looks like a special one
    by_cases hascii : c.toNat < 0x80
    · rw [Utf8.encodeChar_ascii hascii, List.mem_singleton] at hb
      subst hb
      refine ⟨?_, ?_, ?_⟩
      · rw [Ne, Utf8.ofNat_eq (by omega)]
        intro h
        exact h1 (Char.toNat_inj.mp h)
      · rw [Ne, Utf8.ofNat_eq (by omega)]
        intro h
        exact h2 (Char.toNat_inj.mp h)
      · rw [Utf8.ofNat_lt (by omega)]
        exact hcontrol
    · have hlow := Utf8.le_of_mem_encodeChar (by omega) hb
      refine ⟨?_, ?_, ?_⟩
      · rintro rfl
        exact absurd hlow (by decide)
      · rintro rfl
        exact absurd hlow (by decide)
      · rw [UInt8.lt_iff_toNat_lt]
        show ¬ b.toNat < 32
        omega

/-- **One character.** What is written for a character is read as its bytes, and the fuel that is left
still suffices for what follows. -/
theorem stringOnto_escape (c : Char) {fuel : Nat} {rest : Bytes}
    (hfuel : (Utf8.encode (escape c) ++ rest).length ≤ fuel) (acc : Bytes) :
    ∃ left, rest.length ≤ left ∧
      stringOnto fuel acc (Utf8.encode (escape c) ++ rest) =
        stringOnto left ((String.utf8EncodeChar c).reverse ++ acc) rest := by
  rw [List.length_append] at hfuel
  rcases encode_escape_cases c with ⟨hbytes, hplain⟩ | ⟨bytes, hbytes, hescape⟩
  · rw [hbytes] at hfuel ⊢
    -- plain bytes take one unit of fuel each
    refine ⟨fuel - (String.utf8EncodeChar c).length, by omega, ?_⟩
    rw [← stringOnto_plain hplain, Nat.add_sub_cancel' (by omega)]
  · rw [hbytes, List.length_cons] at hfuel
    rw [hbytes]
    -- an escape takes one unit, however many bytes it has
    refine ⟨fuel - 1, by omega, ?_⟩
    rw [show fuel = (fuel - 1) + 1 by omega, List.cons_append, stringOnto_backslash _ _ (hescape rest),
      Nat.add_sub_cancel]

/-- Reading the characters of a string up to its quote. Induction on the characters; what has been
read is kept in the accumulator. -/
theorem stringOnto_flatMap_escape (cs : List Char) (rest : Bytes) :
    ∀ (fuel : Nat) (acc : Bytes),
      (Utf8.encode (cs.flatMap escape) ++ 34 :: rest).length ≤ fuel →
        stringOnto fuel acc (Utf8.encode (cs.flatMap escape) ++ 34 :: rest) =
          .ok (acc.reverse ++ Utf8.encode cs, rest) := by
  induction cs with
  | nil =>
    intro fuel acc hfuel
    simp only [List.flatMap_nil, Utf8.encode_nil, List.nil_append, List.length_cons] at hfuel ⊢
    rw [show fuel = (fuel - 1) + 1 by omega, stringOnto_cons, if_pos rfl, List.append_nil]
  | cons c cs ih =>
    intro fuel acc hfuel
    rw [List.flatMap_cons, Utf8.encode_append, List.append_assoc] at hfuel ⊢
    obtain ⟨left, hleft, hstep⟩ := stringOnto_escape c hfuel acc
    rw [hstep, ih left _ hleft, List.reverse_append, List.reverse_reverse, List.append_assoc,
      Utf8.encode_cons]

theorem printString_eq (s : String) :
    printString s = 34 :: (Utf8.encode (s.toList.flatMap escape) ++ [34]) := by
  rw [printString, List.cons_append, Utf8.encode_cons, Utf8.encode_append]
  rfl

/-- **Strings.** After its opening quote, a printed string is read back whatever follows it. -/
theorem text_printString (s : String) (rest : Bytes) :
    text (Utf8.encode (s.toList.flatMap escape) ++ 34 :: rest) = .ok (s, rest) := by
  unfold text
  rw [stringOnto_flatMap_escape s.toList rest _ [] (Nat.le_succ _)]
  simp only [List.reverse_nil, List.nil_append]
  rw [Utf8.decode?_encode, String.ofList_toList]

end Stowage.Json
