import Stowage.Failure
import Stowage.Reference
/-!
# Stowage — backends

A backend moves large values out of messages and brings them back. It works in a monad of its own,
so that what is said of messages holds for every backend. A backend never deletes what it stored.
-/

namespace Stowage

/-- A place to move large values to. -/
structure Backend (m : Type → Type) where
  /-- The name of the kind of place. -/
  name : String
  /-- The size above which values are moved. -/
  threshold : Nat
  /-- Stores a candidate and gives what replaces it; nothing if the backend declines. -/
  offload : Candidate → m (Except Failure (Option Json))
  /-- Recognizes a reference: nothing for ordinary values, an error for an unusable reference. -/
  recognize : Json → Except Failure (Option Reference)
  /-- The bytes behind a reference. -/
  rehydrate : Reference → m (Except Failure Bytes)

end Stowage
