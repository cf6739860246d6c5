import Stowage.Failure
import Stowage.Json.Shape
import Stowage.Reference
/-!
# Stowage — markers

A marker is the object that stands in a message for a payload held by a chunk host. A value is a
marker exactly when its `__chunked__` member is `true`; a marker whose other members are unusable is
an error, never an ordinary value.
-/

namespace Stowage

/-- A reference to a payload held by a chunk host. -/
structure Marker where
  chunked : Bool
  ref : String
  totalSize : Nat
  fieldPath : String
deriving DecidableEq, Repr

namespace Marker

/-- The key that makes an object a marker. -/
def chunkedKey : String := "__chunked__"

def refKey : String := "__chunk_ref__"

def totalSizeKey : String := "__total_size__"

def fieldPathKey : String := "__field_path__"

def make (ref : String) (totalSize : Nat) (fieldPath : String) : Marker :=
  ⟨true, ref, totalSize, fieldPath⟩

/-- The members of a marker with a given `__chunked__` flag. -/
def members (m : Marker) (chunked : Bool) : Json.Members :=
  [(chunkedKey, .bool chunked), (refKey, .string m.ref),
    (totalSizeKey, .number (.int m.totalSize)), (fieldPathKey, .string m.fieldPath)]

/-- The value that stands for the payload in a message. -/
def toJson (m : Marker) : Json := .object (m.members true)

/-- The marker as a record, its flag as it is. -/
def toRecord (m : Marker) : Json := .object (m.members m.chunked)

def toReference (m : Marker) : Reference := ⟨m.ref, m.totalSize, m.fieldPath⟩

/-- Whether a value is a marker. No other member is looked at. -/
def isMarker (value : Json) : Bool :=
  match value.get? chunkedKey with
  | some (.bool b) => b
  | _ => false

def refOf (value : Json) : Except BadReference String :=
  match value.get? refKey with
  | some (.string id) => if id.isEmpty then .error .emptyId else .ok id
  | some _ => .error .idNotText
  | none => .error .missingId

def totalSizeOf (value : Json) (id : String) : Except BadReference Nat :=
  match (value.get? totalSizeKey).bind Json.toNat? with
  | some n => .ok n
  | none => .error (.noTotalSize id)

/-- The field path in a marker with a given reference id. A missing path and `null` are empty. -/
def fieldPathOf (value : Json) (id : String) : Except BadReference String :=
  match value.get? fieldPathKey with
  | none => .ok ""
  | some .null => .ok ""
  | some (.string path) => .ok path
  | some _ => .error (.pathNotText id)

/-- Reads a marker from a value: nothing if the value is no marker, an error if it is an unusable one.
-/
def ofJson (value : Json) : Except BadReference (Option Marker) :=
  if isMarker value then do
    let id ← refOf value
    let totalSize ← totalSizeOf value id
    let fieldPath ← fieldPathOf value id
    .ok (some ⟨true, id, totalSize, fieldPath⟩)
  else .ok none

/-- The shape of a marker as a record; the field path may be left out. -/
def shape : Json.Shape where
  name := "struct ChunkedRef"
  members :=
    [⟨chunkedKey, fun bytes => (Json.flag bytes).map fun r => (.flag r.1, r.2), none⟩,
      ⟨refKey, fun bytes => (Json.quotedText bytes).map fun r => (.text r.1, r.2), none⟩,
      ⟨totalSizeKey, fun bytes => (Json.word64 bytes).map fun r => (.natural r.1, r.2), none⟩,
      ⟨fieldPathKey, fun bytes => (Json.quotedText bytes).map fun r => (.text r.1, r.2),
        some (.text "")⟩]

def ofSlots : List Json.Slot → Marker
  | [.flag chunked, .text ref, .natural totalSize, .text fieldPath] =>
    ⟨chunked, ref, totalSize, fieldPath⟩
  | _ => ⟨false, "", 0, ""⟩

def read (whole : Bytes) : Except Json.Fault Marker :=
  (Json.readWith shape.read whole).map ofSlots

end Marker

end Stowage
