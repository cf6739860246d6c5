import Stowage.Backend
import Stowage.Chunk.Transfer
import Stowage.Ident.Uuid
import Stowage.Marker
/-!
# Stowage — the remote backend

Large values become payloads of a chunk host, under fresh references; markers stand for them.
-/

namespace Stowage.Remote

open Chunk

/-- Stores a candidate under a fresh reference. -/
def offload (t : Transfer) (c : Candidate) : Program (Except Failure (Option Json)) := do
  let draw ← Program.perform .draw
  let ref := (Uuid.ofRandom draw).text
  match ← t.store ref c.bytes with
  | .error failure => pure (.error failure)
  | .ok () => pure (.ok (some (Marker.make ref c.bytes.length c.fieldPath).toJson))

def recognize (value : Json) : Except Failure (Option Reference) :=
  match Marker.ofJson value with
  | .error why => .error (.invalidReference why)
  | .ok marker => .ok (marker.map Marker.toReference)

/-- The backend that moves values over a threshold to a chunk host. -/
def backend (t : Transfer) (threshold : Nat) : Backend Program where
  name := "remote"
  threshold := threshold
  offload := offload t
  recognize := recognize
  rehydrate r := t.fetch r.id r.totalSize

end Stowage.Remote
