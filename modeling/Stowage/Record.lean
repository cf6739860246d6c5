import Stowage.Ident.Uuid
import Stowage.Ident.ZBase32
import Stowage.Json.Shape
import Stowage.Reference
/-!
# Stowage — records

A record keeps one large value in a file of its own. The copy of it that stands in a message has no
data. A value is a record exactly when its `magic` member is the magic number.
-/

namespace Stowage

/-- A large value kept in a file: its id, the head of its text, its size and the value itself. -/
structure Record where
  magic : Nat
  version : Nat
  id : String
  head : String
  size : Nat
  data : Option Json

namespace Record

def magicNumber : Nat := 0x1343B7E

/-- The version of records that is written and understood. -/
def currentVersion : Nat := 1

/-- How many bytes of the text of a value its record shows. -/
def headSize : Nat := 100

/-- The readable start of a text. A character cut in two shows as U+FFFD. -/
def headOf (bytes : Bytes) : String := Utf8.decodeLossy (bytes.take headSize)

/-- The record, without data, of a value with the given text. -/
def reference (id : String) (bytes : Bytes) : Record :=
  ⟨magicNumber, currentVersion, id, headOf bytes, bytes.length, none⟩

def idOf (id : Uuid) : String := ZBase32.encode id.bytes

/-- The members of a record. Data is left out when there is none. -/
def members (r : Record) : Json.Members :=
  [("magic", .number (.int r.magic)), ("version", .number (.int r.version)), ("id", .string r.id),
    ("head", .string r.head), ("size", .number (.int r.size))] ++
    match r.data with
    | some value => [("data", value)]
    | none => []

/-- The value that stands for a record in a message, or in its file. -/
def toJson (r : Record) : Json := .object r.members

def isMagic (n : Json.Number) : Bool :=
  n.toBinary64 = ⟨false, Binary64.ofNat magicNumber⟩

def isRecord (value : Json) : Bool :=
  match value.get? "magic" with
  | some (.number n) => isMagic n
  | _ => false

/-- The shape that shows whether a text is a record: its magic number alone. -/
def magicShape : Json.Shape where
  name := "struct MagicOnly"
  members :=
    [⟨"magic", fun bytes =>
      (Json.optional (Json.anyNumber "f64") bytes).map fun r => (.number r.1, r.2),
      some (.number none)⟩]

/-- Whether a text is a record, judged without reading its other members. -/
def isRecordText (whole : Bytes) : Bool :=
  match Json.readWith magicShape.read whole with
  | .ok [.number (some n)] => isMagic n
  | _ => false

/-- The shape of a record; data may be left out. -/
def shape : Json.Shape where
  name := "struct LargeObjectRecord"
  members :=
    [⟨"magic", fun bytes => (Json.word64 bytes).map fun r => (.natural r.1, r.2), none⟩,
      ⟨"version", fun bytes => (Json.word32 bytes).map fun r => (.natural r.1, r.2), none⟩,
      ⟨"id", fun bytes => (Json.quotedText bytes).map fun r => (.text r.1, r.2), none⟩,
      ⟨"head", fun bytes => (Json.quotedText bytes).map fun r => (.text r.1, r.2), none⟩,
      ⟨"size", fun bytes => (Json.word64 bytes).map fun r => (.natural r.1, r.2), none⟩,
      ⟨"data", fun bytes =>
        (Json.optional (Json.value (Json.maxDepth - 1)) bytes).map fun r => (.tree r.1, r.2),
        some (.tree none)⟩]

def ofSlots : List Json.Slot → Record
  | [.natural magic, .natural version, .text id, .text head, .natural size, .tree data] =>
    ⟨magic, version, id, head, size, data⟩
  | _ => ⟨0, 0, "", "", 0, none⟩

def read (whole : Bytes) : Except Json.Fault Record :=
  (Json.readWith shape.read whole).map ofSlots

end Record

end Stowage
