import Stowage.Text.Hex
/-!
# Stowage — random identifiers

An identifier is made of sixteen random bytes, in which the version and variant bits of a random
UUID are set. Its text is the usual 36 characters, lowercase.
-/

namespace Stowage

structure Uuid where
  bytes : Bytes
deriving DecidableEq, Repr

namespace Uuid

/-- Sets the version (4) and the variant bits in sixteen random bytes. -/
def ofRandom (draw : Bytes) : Uuid :=
  ⟨(draw.modify 6 fun b => (b &&& 0x0f) ||| 0x40).modify 8 fun b => (b &&& 0x3f) ||| 0x80⟩

/-- Groups of four, two, two, two and six bytes, joined by hyphens. -/
def text (id : Uuid) : String :=
  let part (start count : Nat) : List Char := ((id.bytes.drop start).take count).flatMap Hex.pair
  String.ofList
    (part 0 4 ++ '-' :: part 4 2 ++ '-' :: part 6 2 ++ '-' :: part 8 2 ++ '-' :: part 10 6)

end Uuid

end Stowage
