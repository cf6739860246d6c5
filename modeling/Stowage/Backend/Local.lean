import Stowage.Backend
import Stowage.RecordStore
/-!
# Stowage — the local backend

Large values become record files; records without data stand for them. A message that is not JSON
has no value to keep in a record and stays where it is.
-/

namespace Stowage.Local

/-- Stores the value of a candidate; declines when it has none. -/
def offload (s : RecordStore) (c : Candidate) : Program (Except Failure (Option Json)) :=
  match c.value with
  | none => .done (.ok none)
  | some value => do
    match ← s.store value c.bytes with
    | .error failure => pure (.error failure)
    | .ok record => pure (.ok (record.map Record.toJson))

/-- Recognizes a record by its magic number; it has to have an id. -/
def recognize (value : Json) : Except Failure (Option Reference) :=
  if Record.isRecord value then
    match (value.get? "id").bind Json.toText? with
    | some id =>
      if id.isEmpty then .error (.invalidReference .recordWithoutId)
      else .ok (some ⟨id, ((value.get? "size").bind Json.toNat?).getD 0, ""⟩)
    | none => .error (.invalidReference .recordWithoutId)
  else .ok none

/-- The text of the value behind a reference. -/
def rehydrate (s : RecordStore) (r : Reference) : Program (Except Failure Bytes) := do
  match ← s.load r.id with
  | .error failure => pure (.error failure)
  | .ok record =>
    match record.data with
    | some value => pure (.ok value.print)
    | none => pure (.error (.invalidReference (.recordWithoutData r.id)))

/-- The backend that moves values over the threshold of a record store into it. -/
def backend (s : RecordStore) : Backend Program where
  name := "local"
  threshold := s.threshold
  offload := offload s
  recognize := recognize
  rehydrate := rehydrate s

end Stowage.Local
