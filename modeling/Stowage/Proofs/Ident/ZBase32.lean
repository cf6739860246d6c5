import Mathlib.Data.Nat.Bitwise
import Stowage.Ident.Uuid
import Stowage.Ident.ZBase32
/-!
# Stowage — what record ids spell

The letters of an id are groups of five bits: `Spells` says which bits they are, every letter standing for
its place in the alphabet. Bytes are shifted into a word of 32 bits, and older bits fall off its top, but
never one that is still pending (`lowBits_shiftIn`). So the text of a byte string spells its bits, with
zero bits up to a whole letter (`spells_encode`), and that of sixteen bytes has the form of a record id
(`isId_encode`).
-/

namespace Stowage.ZBase32

/-! ## Bits

Numbers and texts meet in lists of bits, the highest first. What the encoder does by shifting a word is
a statement about such lists. -/

/-- The lowest `count` bits of a number, the highest of them first. -/
def lowBits : Nat → Nat → List Bool
  | 0, _ => []
  | count + 1, n => n.testBit count :: lowBits count n

@[simp] theorem length_lowBits (count n : Nat) : (lowBits count n).length = count := by
  induction count with
  | zero => rfl
  | succ count ih => rw [lowBits, List.length_cons, ih]

/-- The lowest bits of two numbers are the same if each of them is. -/
theorem lowBits_congr {count m n : Nat} (h : ∀ i < count, m.testBit i = n.testBit i) :
    lowBits count m = lowBits count n := by
  induction count with
  | zero => rfl
  | succ count ih =>
    rw [lowBits, lowBits, h count (Nat.lt_succ_self count), ih fun i hi => h i (Nat.lt_succ_of_lt hi)]

/-- Bits that are shifted out stand below the others. -/
theorem lowBits_add (high low n : Nat) :
    lowBits (high + low) n = lowBits high (n >>> low) ++ lowBits low n := by
  induction high with
  | zero => rw [Nat.zero_add, lowBits, List.nil_append]
  | succ high ih =>
    rw [Nat.succ_add, lowBits, lowBits, ih, Nat.testBit_shiftRight, Nat.add_comm low high,
      List.cons_append]

theorem lowBits_zero (count : Nat) : lowBits count 0 = List.replicate count false := by
  induction count with
  | zero => rfl
  | succ count ih => rw [lowBits, Nat.zero_testBit, ih, List.replicate_succ]

/-- The lowest bits of a number are those of its remainder. -/
theorem lowBits_mod (count n : Nat) : lowBits count (n % 2 ^ count) = lowBits count n :=
  lowBits_congr fun i hi => by rw [Nat.testBit_mod_two_pow, decide_eq_true hi, Bool.true_and]

/-- The bits of a byte string, the highest bit of a byte first. -/
def bitsOf (bytes : Bytes) : List Bool := bytes.flatMap fun b => lowBits 8 b.toNat

theorem bitsOf_cons (b : UInt8) (bytes : Bytes) : bitsOf (b :: bytes) = lowBits 8 b.toNat ++ bitsOf bytes :=
  rfl

theorem length_bitsOf (bytes : Bytes) : (bitsOf bytes).length = 8 * bytes.length := by
  induction bytes with
  | nil => rfl
  | cons b bytes ih =>
    rw [bitsOf_cons, List.length_append, length_lowBits, ih, List.length_cons]
    omega

/-- The zero bits that fill up the last group of five. -/
def padding (count : Nat) : List Bool := List.replicate ((5 - count % 5) % 5) false

/-! ## Letters

The alphabet has a letter for every five bits. `Spells` does not say how a text came about, so it can be
used to encode and to decode. -/

/-- `Spells bits letters`: the letters spell the bits, each of them the five bits of its place in the
alphabet. -/
inductive Spells : List Bool → List Char → Prop where
  | nil : Spells [] []
  | cons {place : Nat} {c : Char} {bits : List Bool} {letters : List Char}
      (hplace : alphabet[place]? = some c) (hrest : Spells bits letters) :
      Spells (lowBits 5 place ++ bits) (c :: letters)

theorem length_alphabet : alphabet.length = 32 := by decide

/-- The letter of a word stands where the five lowest bits of it say. -/
theorem letter_eq (word : UInt32) : alphabet[word.toNat % 32]? = some (letter word) := by
  have hlow : (word &&& 0x1f).toNat = word.toNat % 32 :=
    (UInt32.toNat_and word 0x1f).trans (Nat.and_two_pow_sub_one_eq_mod word.toNat 5)
  have hlt : word.toNat % 32 < alphabet.length := by
    rw [length_alphabet]
    exact Nat.mod_lt _ (by decide)
  rw [letter, hlow, List.getD_eq_getElem?_getD, List.getElem?_eq_getElem hlt, Option.getD_some]

/-- The letter of a word spells the five lowest bits of it. -/
theorem Spells.letter (word : UInt32) {bits : List Bool} {letters : List Char}
    (h : Spells bits letters) :
    Spells (lowBits 5 word.toNat ++ bits) (letter word :: letters) := by
  rw [← lowBits_mod 5]
  exact .cons (letter_eq word) h

/-- A letter spells five bits. -/
theorem Spells.length_bits {bits : List Bool} {letters : List Char} (h : Spells bits letters) :
    bits.length = 5 * letters.length := by
  induction h with
  | nil => rfl
  | cons _ _ ih =>
    rw [List.length_append, length_lowBits, ih, List.length_cons]
    omega

/-- Bits are spelled with letters of the alphabet only. -/
theorem Spells.mem_alphabet {bits : List Bool} {letters : List Char} (h : Spells bits letters) :
    ∀ c ∈ letters, c ∈ alphabet := by
  induction h with
  | nil => exact fun c hc => absurd hc List.not_mem_nil
  | cons hplace _ ih => exact List.forall_mem_cons.mpr ⟨List.mem_of_getElem? hplace, ih⟩

/-! ## The text of bytes

The encoder keeps the bits that are not written yet at the low end of a word of 32 bits. Bits that have
been written move up and fall off at the top; since no more than twelve are ever pending, none of these
is lost. -/

/-- The bits that are pending, the first of them first. -/
def Bits.list (bits : Bits) : List Bool := lowBits bits.pending bits.buffer.toNat

/-- What falls off the top of a word is none of the bits that are kept, as long as these and the new ones
have room in it. -/
theorem lowBits_shiftIn {count low : Nat} (n : Nat) {new : Nat} (hroom : count + low ≤ 32)
    (hnew : new < 2 ^ low) :
    lowBits (count + low) (n <<< low % 2 ^ 32 ||| new) = lowBits count n ++ lowBits low new := by
  have hkept : lowBits count ((n <<< low % 2 ^ 32 ||| new) >>> low) = lowBits count n := by
    refine lowBits_congr fun i hi => ?_
    have hbelow : new.testBit (low + i) = false :=
      Nat.testBit_lt_two_pow (Nat.lt_of_lt_of_le hnew (Nat.pow_le_pow_right (by decide) (by omega)))
    rw [Nat.testBit_shiftRight, Nat.testBit_or, Nat.testBit_mod_two_pow, Nat.testBit_shiftLeft, hbelow,
      decide_eq_true (show low + i < 32 by omega), decide_eq_true (show low + i ≥ low by omega),
      Nat.add_sub_cancel_left, Bool.true_and, Bool.true_and, Bool.or_false]
  have hshifted : lowBits low (n <<< low % 2 ^ 32 ||| new) = lowBits low new := by
    refine lowBits_congr fun i hi => ?_
    rw [Nat.testBit_or, Nat.testBit_mod_two_pow, Nat.testBit_shiftLeft,
      decide_eq_false (show ¬ i ≥ low by omega), Bool.false_and, Bool.and_false, Bool.false_or]
  rw [lowBits_add, hkept, hshifted]

/-- The bits that are pending, with a byte shifted in below them. -/
def Bits.shiftIn (bits : Bits) (b : UInt8) : Bits :=
  ⟨(bits.buffer <<< 8) ||| b.toUInt32, bits.pending + 8⟩

/-- A byte that is shifted in comes behind what is pending. -/
theorem Bits.list_shiftIn (bits : Bits) (b : UInt8) (hroom : bits.pending + 8 ≤ 32) :
    (bits.shiftIn b).list = bits.list ++ lowBits 8 b.toNat := by
  have hword : ((bits.buffer <<< 8) ||| b.toUInt32).toNat =
      bits.buffer.toNat <<< 8 % 2 ^ 32 ||| b.toNat := by
    rw [UInt32.toNat_or, UInt32.toNat_shiftLeft, UInt8.toNat_toUInt32]
    rfl
  rw [Bits.list, shiftIn, hword, lowBits_shiftIn _ hroom b.toNat_lt]
  rfl

/-- The bits of the last letter: what is pending, and zero bits below it. -/
theorem Bits.list_shiftOut (bits : Bits) (low : Nat) (hroom : bits.pending + low ≤ 32) (hlow : low < 32) :
    lowBits (bits.pending + low) (bits.buffer <<< low.toUInt32).toNat =
      bits.list ++ List.replicate low false := by
  have hword : (bits.buffer <<< low.toUInt32).toNat = bits.buffer.toNat <<< low % 2 ^ 32 ||| 0 := by
    rw [UInt32.toNat_shiftLeft, Nat.toUInt32_eq, UInt32.toNat_ofNat', Nat.or_zero,
      Nat.mod_eq_of_lt (Nat.lt_trans hlow (by decide)), Nat.mod_eq_of_lt hlow]
  rw [hword, lowBits_shiftIn _ hroom (Nat.two_pow_pos low), lowBits_zero]
  rfl

/-- The letter that is written when five bits are pending spells the first five of them. -/
theorem Bits.list_of_five (bits : Bits) (hfive : 5 ≤ bits.pending) (hword : bits.pending < 32) :
    bits.list = lowBits 5 (bits.buffer >>> (bits.pending - 5).toUInt32).toNat ++
      Bits.list ⟨bits.buffer, bits.pending - 5⟩ := by
  have hshift : (bits.buffer >>> (bits.pending - 5).toUInt32).toNat =
      bits.buffer.toNat >>> (bits.pending - 5) := by
    rw [UInt32.toNat_shiftRight, Nat.toUInt32_eq, UInt32.toNat_ofNat']
    congr 1
    omega
  rw [hshift, Bits.list, Bits.list, ← lowBits_add, Nat.add_sub_cancel' hfive]

/-- Flushing leaves fewer than five bits. -/
theorem flush_pending (fuel : Nat) :
    ∀ bits : Bits, bits.pending < 5 * (fuel + 1) → (flush fuel bits).2.pending = bits.pending % 5 := by
  induction fuel with
  | zero =>
    intro bits h
    show bits.pending = bits.pending % 5
    omega
  | succ fuel ih =>
    intro bits h
    rw [flush]
    by_cases hmore : 5 ≤ bits.pending
    · rw [if_pos hmore]
      have hrest := ih ⟨bits.buffer, bits.pending - 5⟩ (show bits.pending - 5 < 5 * (fuel + 1) by omega)
      refine hrest.trans ?_
      show (bits.pending - 5) % 5 = bits.pending % 5
      omega
    · rw [if_neg hmore]
      show bits.pending = bits.pending % 5
      omega

/-- Flushing leaves the bits that its letters do not spell. -/
theorem spells_flush (fuel : Nat) {rest : List Bool} {letters : List Char} :
    ∀ bits : Bits, bits.pending < 32 → Spells ((flush fuel bits).2.list ++ rest) letters →
      Spells (bits.list ++ rest) ((flush fuel bits).1 ++ letters) := by
  induction fuel with
  | zero => exact fun bits _ h => h
  | succ fuel ih =>
    intro bits hword h
    rw [flush] at h ⊢
    by_cases hmore : 5 ≤ bits.pending
    · rw [if_pos hmore] at h ⊢
      rw [bits.list_of_five hmore hword, List.append_assoc]
      exact .letter _ (ih ⟨bits.buffer, bits.pending - 5⟩ (Nat.lt_of_le_of_lt (Nat.sub_le ..) hword) h)
    · rw [if_neg hmore] at h ⊢
      exact h

/-- Each byte is shifted in, and the letters that are full are written. -/
theorem encodeFrom_cons (bits : Bits) (b : UInt8) (bytes : Bytes) :
    encodeFrom bits (b :: bytes) =
      (flush 3 (bits.shiftIn b)).1 ++ encodeFrom (flush 3 (bits.shiftIn b)).2 bytes := rfl

/-- The text of the bytes spells what is pending, then the bytes, then the zero bits of the last group.
Induction on the bytes; fewer than five bits are pending between them. -/
theorem spells_encodeFrom (bytes : Bytes) :
    ∀ bits : Bits, bits.pending < 5 →
      Spells (bits.list ++ (bitsOf bytes ++ padding (bits.pending + 8 * bytes.length)))
        (encodeFrom bits bytes) := by
  induction bytes with
  | nil =>
    intro bits hfew
    rw [encodeFrom]
    by_cases hleft : 0 < bits.pending
    · have hpadding : padding (bits.pending + 8 * ([] : Bytes).length) =
          List.replicate (5 - bits.pending) false := by
        rw [padding, List.length_nil]
        congr 1
        omega
      have hlast := bits.list_shiftOut (5 - bits.pending) (by omega) (by omega)
      rw [Nat.add_sub_cancel' (Nat.le_of_lt hfew)] at hlast
      rw [if_pos hleft, hpadding, bitsOf, List.flatMap_nil, List.nil_append, ← hlast,
        ← List.append_nil (lowBits ..)]
      exact .letter _ .nil
    · obtain ⟨buffer, pending⟩ := bits
      obtain rfl : pending = 0 := Nat.eq_zero_of_not_pos hleft
      rw [if_neg hleft]
      show Spells (lowBits 0 buffer.toNat ++ ([] ++ padding 0)) []
      exact .nil
  | cons b bytes ih =>
    intro bits hfew
    -- a byte and at most four bits have room in a word
    have hroom : bits.pending + 8 ≤ 32 := by omega
    have hpending : (flush 3 (bits.shiftIn b)).2.pending = (bits.pending + 8) % 5 :=
      flush_pending 3 (bits.shiftIn b) (show bits.pending + 8 < 20 by omega)
    have hpadding : padding ((bits.pending + 8) % 5 + 8 * bytes.length) =
        padding (bits.pending + 8 * (b :: bytes).length) := by
      rw [padding, padding, List.length_cons]
      congr 1
      omega
    have hrest := ih (flush 3 (bits.shiftIn b)).2 (by rw [hpending]; exact Nat.mod_lt _ (by decide))
    rw [hpending, hpadding] at hrest
    have hall := spells_flush 3 (bits.shiftIn b) (show bits.pending + 8 < 32 by omega) hrest
    rw [bits.list_shiftIn b hroom, List.append_assoc, ← List.append_assoc (lowBits ..), ← bitsOf_cons]
      at hall
    rw [encodeFrom_cons]
    exact hall

theorem toList_encode (bytes : Bytes) : (encode bytes).toList = encodeFrom ⟨0, 0⟩ bytes :=
  String.toList_ofList

/-- **The text of a byte string** spells its bits, and zero bits up to a whole letter. -/
theorem spells_encode (bytes : Bytes) :
    Spells (bitsOf bytes ++ padding (8 * bytes.length)) (encode bytes).toList := by
  have h := spells_encodeFrom bytes ⟨0, 0⟩ (by decide)
  rwa [Nat.zero_add, ← toList_encode] at h

/-- The text of sixteen bytes has the form of a record id. -/
theorem isId_encode {bytes : Bytes} (h : bytes.length = 16) : isId (encode bytes) = true := by
  have hspelled := spells_encode bytes
  have hlength := hspelled.length_bits
  rw [List.length_append, length_bitsOf, padding, List.length_replicate, h] at hlength
  have hall : (encode bytes).toList.all alphabet.contains = true := by
    rw [List.all_eq_true]
    exact fun c hc => List.contains_iff_mem.mpr (hspelled.mem_alphabet c hc)
  rw [isId, hall, decide_eq_true_iff]
  exact ⟨show (encode bytes).toList.length = 26 by omega, rfl⟩

end Stowage.ZBase32

namespace Stowage

/-- The bytes of a random UUID are as many as were drawn. -/
theorem Uuid.length_ofRandom (draw : Bytes) : (ofRandom draw).bytes.length = draw.length := by
  rw [ofRandom, List.length_modify, List.length_modify]

end Stowage
