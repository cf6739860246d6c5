import Stowage.Backend
import Stowage.Gate
/-!
# Stowage — messages

Offloading replaces the parts of a message that are too large by references; resolving puts the
values back. Only the top level of a message is looked at. A message in which nothing is replaced is
returned byte for byte, and one failing part fails the whole.
-/

namespace Stowage.Message

variable {m : Type → Type} [Monad m]

/-- Puts a value in the place of a field, if there is such a field. -/
def splice (fields : Json.Members) (key : String) (value : Json) : Json.Members :=
  fields.map fun field => if field.1 == key then (key, value) else field

/-- Offloads candidates one after the other and splices their replacements into the fields. A
declined candidate gets its value back. The flag says whether anything was replaced. -/
def offloadFields (backend : Backend m) :
    List Candidate → Json.Members → Bool → m (Except Failure (Json.Members × Bool))
  | [], fields, replaced => pure (.ok (fields, replaced))
  | c :: rest, fields, replaced => do
    match ← backend.offload c with
    | .error failure => pure (.error failure)
    | .ok (some reference) =>
      offloadFields backend rest (splice fields c.fieldPath reference) true
    | .ok none =>
      -- evaluating has emptied the slot of every candidate
      offloadFields backend rest (splice fields c.fieldPath (c.value.getD .null)) replaced

/-- Replaces every field that is too large, or the whole message if it is no object, by a reference.
-/
def offload (backend : Backend m) (message : Bytes) : m (Except Failure Bytes) :=
  match (Gate.mk backend.threshold).evaluate message with
  | .passthrough => pure (.ok message)
  | .whole candidate => do
    match ← backend.offload candidate with
    | .error failure => pure (.error failure)
    | .ok (some reference) => pure (.ok reference.print)
    | .ok none => pure (.ok message)
  | .fields fields candidates => do
    match ← offloadFields backend candidates fields false with
    | .error failure => pure (.error failure)
    | .ok (fields, true) => pure (.ok (Json.object fields).print)
    | .ok (_, false) => pure (.ok message)

/-- The value that bytes stand for in a message: JSON, or a string of their text. -/
def valueOf (bytes : Bytes) : Json :=
  match Json.read? bytes with
  | some value => value
  | none => .string (Utf8.decodeLossy bytes)

/-- Resolves the references among fields, in order. The flag says whether there was any. -/
def resolveFields (backend : Backend m) :
    Json.Members → m (Except Failure (Json.Members × Bool))
  | [] => pure (.ok ([], false))
  | (key, value) :: rest =>
    match backend.recognize value with
    | .error failure => pure (.error failure)
    | .ok none => do
      match ← resolveFields backend rest with
      | .error failure => pure (.error failure)
      | .ok (fields, resolved) => pure (.ok ((key, value) :: fields, resolved))
    | .ok (some reference) => do
      match ← backend.rehydrate reference with
      | .error failure => pure (.error failure)
      | .ok bytes =>
        match ← resolveFields backend rest with
        | .error failure => pure (.error failure)
        | .ok (fields, _) => pure (.ok ((key, valueOf bytes) :: fields, true))

/-- Replaces every reference by the value it stands for. -/
def resolve (backend : Backend m) (message : Bytes) : m (Except Failure Bytes) :=
  match Json.read? message with
  | none => pure (.ok message)
  | some value =>
    match backend.recognize value with
    | .error failure => pure (.error failure)
    | .ok (some reference) =>
      -- at the top level a reference stands for the whole message, so it may not name a field
      if reference.fieldPath.isEmpty then backend.rehydrate reference
      else
        pure (.error (.invalidReference (.topLevelField reference.id reference.fieldPath)))
    | .ok none =>
      match value with
      | .object fields => do
        match ← resolveFields backend fields with
        | .error failure => pure (.error failure)
        | .ok (fields, true) => pure (.ok (Json.object fields).print)
        | .ok (_, false) => pure (.ok message)
      | _ => pure (.ok message)

/-- Whether a backend sees a reference in a value, usable or not. -/
def isReference (backend : Backend m) (value : Json) : Bool :=
  match backend.recognize value with
  | .ok none => false
  | _ => true

/-- Whether a message or one of its fields is a reference, usable or not. -/
def containsReferences (backend : Backend m) (message : Bytes) : Bool :=
  match Json.read? message with
  | none => false
  | some value =>
    isReference backend value ||
      match value with
      | .object fields => fields.any fun field => isReference backend field.2
      | _ => false

end Stowage.Message
