import Stowage.Json.Value
import Stowage.Text.Utf8
/-!
# Stowage — candidates and references

A candidate is a value that is too large for its message; a reference is what a message holds in its
place. Both name the field they belong to; an empty field path stands for the whole message.
-/

namespace Stowage

/-- A value selected for offloading: the field it comes from, its bytes, and the value itself unless
it is a whole message that is not JSON. -/
structure Candidate where
  fieldPath : String
  bytes : Bytes
  value : Option Json

def Candidate.isWhole (c : Candidate) : Bool := c.fieldPath.isEmpty

/-- A reference recognized in a message: the id of what is stored, its size, and the field. -/
structure Reference where
  id : String
  totalSize : Nat
  fieldPath : String
deriving DecidableEq, Repr

end Stowage
