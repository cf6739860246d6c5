import Stowage.Text.Utf8
/-!
# Stowage — z-base-32

Record ids spell sixteen bytes in z-base-32: five bits to a letter, the first bit first, the last
letter filled up with zero bits. The alphabet has no uppercase letters, so ids that differ stay
different where case is ignored.
-/

namespace Stowage.ZBase32

/-- The letters, by value. -/
def alphabet : List Char := "ybndrfg8ejkmcpqxot1uwisza345h769".toList

/-- The number of letters in a record id. -/
def idLength : Nat := 26

/-- The letter for the five lowest bits of a word. -/
def letter (word : UInt32) : Char := alphabet.getD (word &&& 0x1f).toNat 'y'

/-- Bits that have been read but not written yet: the lowest `pending` bits of `buffer`. Older bits
may still stand above them, and fall off the top as bytes are shifted in. -/
structure Bits where
  buffer : UInt32
  pending : Nat
deriving DecidableEq, Repr

/-- Writes letters as long as five bits are pending, at most `fuel` of them. -/
def flush : Nat → Bits → List Char × Bits
  | 0, bits => ([], bits)
  | fuel + 1, bits =>
    if 5 ≤ bits.pending then
      let pending := bits.pending - 5
      let (letters, rest) := flush fuel ⟨bits.buffer, pending⟩
      (letter (bits.buffer >>> pending.toUInt32) :: letters, rest)
    else ([], bits)

def encodeFrom (bits : Bits) : Bytes → List Char
  | [] =>
    if 0 < bits.pending then [letter (bits.buffer <<< (5 - bits.pending).toUInt32)] else []
  | b :: rest =>
    let (letters, bits) := flush 3 ⟨(bits.buffer <<< 8) ||| b.toUInt32, bits.pending + 8⟩
    letters ++ encodeFrom bits rest

def encode (bytes : Bytes) : String := String.ofList (encodeFrom ⟨0, 0⟩ bytes)

def isId (id : String) : Bool := id.toList.length = idLength ∧ id.toList.all alphabet.contains

end Stowage.ZBase32
