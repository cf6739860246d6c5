/-!
# Stowage — UTF-8

Byte strings and the characters they spell. `piece` takes one character, or one maximal broken
part, off the front of a byte string; everything else is read off the list of pieces. Strict
decoding accepts a string all of whose pieces are characters; lossy decoding writes U+FFFD for each
broken part.
-/

namespace Stowage

abbrev Bytes := List UInt8

namespace Utf8

def encode (cs : List Char) : Bytes := cs.flatMap String.utf8EncodeChar

/-- One step of reading: a whole character, or a part that no character can start with. -/
inductive Piece where
  | char (c : Char)
  | broken
deriving DecidableEq, Repr

/-- What a lead byte announces: how many bytes follow it, the bounds of the first of these, and the
payload bits of the lead itself. -/
structure Lead where
  more : Nat
  low : UInt8
  high : UInt8
  bits : Nat
deriving DecidableEq, Repr

/-- The lead bytes of characters of two to four bytes. The bounds of the second byte leave out
overlong forms, surrogates and values above U+10FFFF. -/
def Lead.ofByte? (b : UInt8) : Option Lead :=
  if b < 0xC2 then none
  else if b < 0xE0 then some ⟨1, 0x80, 0xBF, b.toNat - 0xC0⟩
  else if b < 0xF0 then
    some ⟨2, if b = 0xE0 then 0xA0 else 0x80, if b = 0xED then 0x9F else 0xBF, b.toNat - 0xE0⟩
  else if b < 0xF5 then
    some ⟨3, if b = 0xF0 then 0x90 else 0x80, if b = 0xF4 then 0x8F else 0xBF, b.toNat - 0xF0⟩
  else none

/-- Reads `more` further continuation bytes onto the value `v`. A byte that does not continue the
character is left in place. -/
def continuation : Nat → Nat → Bytes → Piece × Bytes
  | 0, v, rest => (.char (Char.ofNat v), rest)
  | _ + 1, _, [] => (.broken, [])
  | more + 1, v, b :: rest =>
    if 0x80 ≤ b ∧ b ≤ 0xBF then continuation more (v * 64 + (b.toNat - 0x80)) rest
    else (.broken, b :: rest)

/-- The first piece of a byte string that starts with `b`, and the bytes after that piece. -/
def piece (b : UInt8) (rest : Bytes) : Piece × Bytes :=
  if b < 0x80 then (.char (Char.ofNat b.toNat), rest)
  else match Lead.ofByte? b with
    | none => (.broken, rest)
    | some lead =>
      match rest with
      | [] => (.broken, [])
      | c :: rest' =>
        if lead.low ≤ c ∧ c ≤ lead.high then
          continuation (lead.more - 1) (lead.bits * 64 + (c.toNat - 0x80)) rest'
        else (.broken, rest)

/-- The pieces of the first `fuel` bytes or more, on top of those already read, last first. -/
def piecesOnto : Nat → List Piece → Bytes → List Piece
  | 0, acc, _ => acc
  | _ + 1, acc, [] => acc
  | fuel + 1, acc, b :: rest => piecesOnto fuel ((piece b rest).1 :: acc) (piece b rest).2

/-- The pieces of a byte string, in order. Every piece takes a byte, so the length suffices. -/
def pieces (bytes : Bytes) : List Piece := (piecesOnto bytes.length [] bytes).reverse

/-- The character of a piece, with U+FFFD for a broken part. -/
def Piece.toChar : Piece → Char
  | .char c => c
  | .broken => Char.ofNat 0xFFFD

def Piece.isChar : Piece → Bool
  | .char _ => true
  | .broken => false

/-- The text a byte string spells, or `none` when some part of it is broken. -/
def decode? (bytes : Bytes) : Option String :=
  let parts := pieces bytes
  if parts.all Piece.isChar then some (String.ofList (parts.map Piece.toChar)) else none

/-- The text of a byte string, with one U+FFFD for each broken part. -/
def decodeLossy (bytes : Bytes) : String := String.ofList ((pieces bytes).map Piece.toChar)

end Utf8

def utf8 (text : String) : Bytes := Utf8.encode text.toList

end Stowage
