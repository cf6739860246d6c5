import Stowage.Proofs.Ident.ZBase32
import Stowage.Record
/-!
# Stowage — record ids read back

Bits are spelled by one text only (`Spells.letters_unique`). `decode?` reads the bytes of a text back and
accepts exactly the texts of byte strings (`decode?_eq_some_iff`): there is no second spelling, and what
is left over when bytes are taken off must be zero bits. So different bytes have different ids
(`Record.idOf_spells`).
-/

namespace Stowage.ZBase32

/-! ## One spelling

The letters are told apart by their places in the alphabet, and five bits by their number. Both have to
be one-to-one for a text to spell its bits alone. -/

/-- The number that bits spell, the first bit being the highest. -/
def ofBits : List Bool → Nat
  | [] => 0
  | bit :: bits => 2 ^ bits.length * bit.toNat + ofBits bits

/-- The lowest bits of a number spell its remainder. -/
theorem ofBits_lowBits (count n : Nat) : ofBits (lowBits count n) = n % 2 ^ count := by
  induction count with
  | zero =>
    rw [Nat.pow_zero, Nat.mod_one]
    rfl
  | succ count ih =>
    rw [lowBits, ofBits, length_lowBits, ih, Nat.mod_pow_succ, Nat.toNat_testBit, Nat.add_comm]

theorem ofBits_lt (bits : List Bool) : ofBits bits < 2 ^ bits.length := by
  induction bits with
  | nil => exact Nat.one_pos
  | cons bit bits ih =>
    rw [ofBits, List.length_cons, Nat.pow_succ]
    cases bit with
    | false => rw [Bool.toNat_false]; omega
    | true => rw [Bool.toNat_true]; omega

/-- Bits are the lowest bits of the number that they spell. -/
theorem lowBits_ofBits (bits : List Bool) : lowBits bits.length (ofBits bits) = bits := by
  induction bits with
  | nil => rfl
  | cons bit bits ih =>
    have hhead : (ofBits (bit :: bits)).testBit bits.length = bit := by
      rw [ofBits, Nat.testBit_two_pow_mul_add _ (ofBits_lt bits), if_neg (Nat.lt_irrefl _), Nat.sub_self]
      cases bit <;> rfl
    have htail : lowBits bits.length (ofBits (bit :: bits)) = bits := by
      refine (lowBits_congr fun i hi => ?_).trans ih
      rw [ofBits, Nat.testBit_two_pow_mul_add _ (ofBits_lt bits), if_pos hi]
    rw [List.length_cons, lowBits, hhead, htail]

/-- Small numbers differ in their lowest bits. -/
theorem lowBits_inj {m n : Nat} (count : Nat) (hm : m < 2 ^ count) (hn : n < 2 ^ count)
    (h : lowBits count m = lowBits count n) : m = n := by
  have hvalues := congrArg ofBits h
  rwa [ofBits_lowBits, ofBits_lowBits, Nat.mod_eq_of_lt hm, Nat.mod_eq_of_lt hn] at hvalues

/-- No letter stands at two places. -/
theorem place_unique {place place' : Nat} {c : Char} (h : alphabet[place]? = some c)
    (h' : alphabet[place']? = some c) : place = place' :=
  (List.getElem?_inj (List.getElem?_eq_some_iff.mp h).1 (by decide)).mp (h.trans h'.symm)

/-- The place of a letter has five bits. -/
theorem place_lt {place : Nat} {c : Char} (h : alphabet[place]? = some c) : place < 2 ^ 5 := by
  have hlt := (List.getElem?_eq_some_iff.mp h).1
  rwa [length_alphabet] at hlt

/-- Bits are spelled in one way. -/
theorem Spells.letters_unique {bits : List Bool} {letters letters' : List Char}
    (h : Spells bits letters) (h' : Spells bits letters') : letters = letters' := by
  induction h generalizing letters' with
  | nil =>
    have hlength := h'.length_bits
    rw [List.length_nil] at hlength
    exact (List.eq_nil_of_length_eq_zero (by omega)).symm
  | @cons place c bits letters hplace hrest ih =>
    generalize hbits : lowBits 5 place ++ bits = all at h'
    cases h' with
    | nil => exact absurd (congrArg List.length hbits) (by simp)
    | @cons place' c' bits' letters' hplace' hrest' =>
      obtain ⟨hgroup, rfl⟩ := List.append_inj hbits (by simp)
      obtain rfl := lowBits_inj 5 (place_lt hplace) (place_lt hplace') hgroup
      rw [ih hrest', Option.some.inj (hplace.symm.trans hplace')]

/-! ## Read back

Decoding takes the bits of the letters, cuts off whole bytes, and looks at what is left over. These must
be the zero bits that fill up a last group of five. -/

/-- The bits that letters spell, unless one is none of the alphabet. -/
def spelled? : List Char → Option (List Bool)
  | [] => some []
  | c :: letters =>
    match alphabet.idxOf? c, spelled? letters with
    | some place, some bits => some (lowBits 5 place ++ bits)
    | _, _ => none

/-- Looking a letter up gives the place where it stands. -/
theorem idxOf?_alphabet {place : Nat} {c : Char} :
    alphabet.idxOf? c = some place ↔ alphabet[place]? = some c := by
  constructor
  · intro h
    obtain ⟨hlt, hget, -⟩ := List.idxOf?_eq_some_iff.mp h
    rw [List.getElem?_eq_getElem hlt, hget]
  · intro h
    obtain ⟨hlt, hget⟩ := List.getElem?_eq_some_iff.mp h
    refine List.idxOf?_eq_some_iff.mpr ⟨hlt, hget, fun i hi heq => ?_⟩
    have hplace := place_unique (List.getElem?_eq_some_iff.mpr ⟨_, heq⟩) h
    omega

/-- The bits that are read are those that the letters spell. Induction on the letters. -/
theorem spelled?_eq_some_iff {letters : List Char} :
    ∀ {bits : List Bool}, spelled? letters = some bits ↔ Spells bits letters := by
  induction letters with
  | nil =>
    intro bits
    rw [spelled?, Option.some.injEq]
    constructor
    · rintro rfl
      exact .nil
    · intro h
      cases h
      rfl
  | cons c letters ih =>
    intro bits
    constructor
    -- the letter gives five bits, the others the rest
    · intro h
      rw [spelled?] at h
      split at h
      · rename_i place tail hplace htail
        obtain rfl := Option.some.inj h
        exact .cons (idxOf?_alphabet.mp hplace) (ih.mp htail)
      · cases h
    · intro h
      cases h with
      | cons hplace hrest => rw [spelled?, idxOf?_alphabet.mpr hplace, ih.mpr hrest]

/-- The first `count` bytes of bits. -/
def bytesOf : Nat → List Bool → Bytes
  | 0, _ => []
  | count + 1, bits => UInt8.ofNat (ofBits (bits.take 8)) :: bytesOf count (bits.drop 8)

/-- Bytes are read back from their bits, whatever bits follow. -/
theorem bytesOf_bitsOf (bytes : Bytes) (left : List Bool) :
    bytesOf bytes.length (bitsOf bytes ++ left) = bytes := by
  induction bytes with
  | nil => rfl
  | cons b bytes ih =>
    rw [List.length_cons, bytesOf, bitsOf_cons, List.append_assoc,
      List.take_left' (length_lowBits ..), List.drop_left' (length_lowBits ..), ih, ofBits_lowBits,
      Nat.mod_eq_of_lt b.toNat_lt, UInt8.ofNat_toNat]

theorem length_bytesOf (count : Nat) (bits : List Bool) : (bytesOf count bits).length = count := by
  induction count generalizing bits with
  | zero => rfl
  | succ count ih => rw [bytesOf, List.length_cons, ih]

/-- Bytes that were read have the bits they were read from. -/
theorem bitsOf_bytesOf (count : Nat) : ∀ bits : List Bool, 8 * count ≤ bits.length →
    bitsOf (bytesOf count bits) = bits.take (8 * count) := by
  induction count with
  | zero => exact fun bits _ => List.take_zero.symm
  | succ count ih =>
    intro bits hlength
    have hbyte : (bits.take 8).length = 8 := by
      rw [List.length_take]
      omega
    have hlt := ofBits_lt (bits.take 8)
    rw [hbyte] at hlt
    have hfirst : lowBits 8 (UInt8.ofNat (ofBits (bits.take 8))).toNat = bits.take 8 := by
      rw [UInt8.toNat_ofNat', Nat.mod_eq_of_lt hlt]
      conv_rhs => rw [← lowBits_ofBits (bits.take 8), hbyte]
    rw [bytesOf, bitsOf_cons, hfirst, ih _ (by rw [List.length_drop]; omega), ← List.take_add]
    congr 1
    omega

/-- The bytes that a text spells. What is left over when bytes are taken off must be the zero bits that
their text ends in. -/
def decode? (text : String) : Option Bytes :=
  match spelled? text.toList with
  | none => none
  | some bits =>
    let count := bits.length / 8
    if bits.drop (8 * count) = padding (8 * count) then some (bytesOf count bits) else none

/-- **Decoding** accepts exactly the texts of byte strings. -/
theorem decode?_eq_some_iff {text : String} {bytes : Bytes} :
    decode? text = some bytes ↔ text = encode bytes := by
  constructor
  · intro h
    rw [decode?] at h
    split at h
    -- what the text spells is all the bits of the bytes and the padding, so it is their text
    · cases h
    rename_i bits hbits
    simp only at h
    split at h
    · rename_i hleft
      obtain rfl := Option.some.inj h
      have hspelled := spelled?_eq_some_iff.mp hbits
      have hall : bits = bitsOf (bytesOf (bits.length / 8) bits) ++
          padding (8 * (bytesOf (bits.length / 8) bits).length) := by
        rw [bitsOf_bytesOf _ bits (Nat.mul_div_le ..), length_bytesOf, ← hleft, List.take_append_drop]
      rw [hall] at hspelled
      exact String.toList_inj.mp (hspelled.letters_unique (spells_encode _))
    · cases h
  -- the padding is less than a byte, so as many bytes are read as were written
  · rintro rfl
    have hcount : (bitsOf bytes ++ padding (8 * bytes.length)).length / 8 = bytes.length := by
      rw [List.length_append, length_bitsOf, padding, List.length_replicate]
      omega
    rw [decode?, spelled?_eq_some_iff.mpr (spells_encode bytes)]
    simp only
    rw [hcount, if_pos (List.drop_left' (length_bitsOf bytes)), bytesOf_bitsOf]

/-- A set bit below the last byte is refused. -/
example : decode? "yy" = some [0] ∧ decode? "yb" = none := by decide

/-- **Different bytes have different texts.** -/
theorem encode_inj {bytes bytes' : Bytes} : encode bytes = encode bytes' ↔ bytes = bytes' := by
  constructor
  · intro h
    have hbytes := congrArg decode? h
    rw [decode?_eq_some_iff.mpr rfl, decode?_eq_some_iff.mpr rfl] at hbytes
    exact Option.some.inj hbytes
  · rintro rfl
    rfl

end Stowage.ZBase32

namespace Stowage.Record

open ZBase32

/-- **Record ids.** The id of sixteen bytes has the form of an id. It is the one text that spells their
128 bits and two zero bits, five to a letter; it is the id of no other bytes, and the one text from which
they are read back. -/
theorem idOf_spells (id : Uuid) (hsize : id.bytes.length = 16) :
    (idOf id).length = 26 ∧ isId (idOf id) = true ∧
      (∀ text : String, Spells (bitsOf id.bytes ++ [false, false]) text.toList ↔ text = idOf id) ∧
      (∀ other : Uuid, idOf other = idOf id ↔ other = id) ∧
      ∀ text : String, decode? text = some id.bytes ↔ text = idOf id := by
  have hform : isId (idOf id) = true := isId_encode hsize
  have hspelled := spells_encode id.bytes
  have hpadding : padding (8 * id.bytes.length) = [false, false] := by
    rw [hsize]
    rfl
  rw [hpadding] at hspelled
  -- two zero bits fill up the last of the 26 letters
  refine ⟨?_, hform, fun text => ⟨fun h => ?_, ?_⟩, fun other => ⟨fun h => ?_, congrArg idOf⟩,
    fun text => decode?_eq_some_iff⟩
  · rw [← String.length_toList]
    exact (of_decide_eq_true hform).1
  · exact String.toList_inj.mp (h.letters_unique hspelled)
  · rintro rfl
    exact hspelled
  · obtain ⟨bytes⟩ := id
    obtain ⟨bytes'⟩ := other
    exact congrArg Uuid.mk (encode_inj.mp h)

/-- Every random bit set: after four bytes the word of 32 bits is full of ones, and each byte more pushes
eight of them out. -/
theorem idOf_spells_ones :
    (Uuid.ofRandom (List.replicate 16 0xff)).bytes.length = 16 ∧
      idOf (Uuid.ofRandom (List.replicate 16 0xff)) = "9999999997899x99999999999h" ∧
      Spells (bitsOf (Uuid.ofRandom (List.replicate 16 0xff)).bytes ++ [false, false])
        "9999999997899x99999999999h".toList ∧
      decode? "9999999997899x99999999999h" =
        some [0xff, 0xff, 0xff, 0xff, 0xff, 0xff, 0x4f, 0xff, 0xbf, 0xff, 0xff, 0xff, 0xff, 0xff, 0xff,
          0xff] := by
  have hsize : (Uuid.ofRandom (List.replicate 16 0xff)).bytes.length = 16 := by decide
  have hid : "9999999997899x99999999999h" = idOf (Uuid.ofRandom (List.replicate 16 0xff)) := by
    decide +kernel
  obtain ⟨-, -, hspells, -, hdecode⟩ := idOf_spells _ hsize
  exact ⟨hsize, hid.symm, (hspells _).mpr hid, (hdecode _).mpr hid⟩

end Stowage.Record
