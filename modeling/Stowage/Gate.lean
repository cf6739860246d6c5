import Stowage.Json.Printer
import Stowage.Json.Reader
import Stowage.Reference
/-!
# Stowage — the size gate

The gate picks the parts of a message that are too large to stay in it. The fields of an object are
judged one by one, by the length of their compact text; any other message is judged as a whole, by
its own length. A part exactly at the threshold stays.
-/

namespace Stowage

inductive Evaluation where
  /-- Nothing is too large. -/
  | passthrough
  /-- Some fields are too large. `message` holds `null` in their places. -/
  | fields (message : Json.Members) (candidates : List Candidate)
  /-- The message is no object and too large as a whole. -/
  | whole (candidate : Candidate)

/-- A threshold on the size of what stays in a message. -/
structure Gate where
  threshold : Nat
deriving DecidableEq, Repr

namespace Gate

def exceeds (gate : Gate) (size : Nat) : Bool := gate.threshold < size

/-- Whether the text of a field is over the threshold. -/
def selects (gate : Gate) (field : String × Json) : Bool := gate.exceeds field.2.print.length

def candidate (field : String × Json) : Candidate := ⟨field.1, field.2.print, some field.2⟩

/-- A message judged by its own length. -/
def whole (gate : Gate) (message : Bytes) (value : Option Json) : Evaluation :=
  if gate.exceeds message.length then .whole ⟨"", message, value⟩ else .passthrough

def evaluate (gate : Gate) (message : Bytes) : Evaluation :=
  match Json.read? message with
  | none => gate.whole message none
  | some (.object fields) =>
    let candidates := (fields.filter gate.selects).map candidate
    if candidates.isEmpty then .passthrough
    else
      .fields (fields.map fun field => if gate.selects field then (field.1, .null) else field)
        candidates
  | some value => gate.whole message (some value)

end Gate

end Stowage
