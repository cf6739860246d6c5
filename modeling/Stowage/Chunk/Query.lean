import Stowage.Number.Word64
import Stowage.Url.Form
/-!
# Stowage — the fields of a chunk request

What the query of a request says of a chunk. Fields that nobody asks for are skipped; a field that is
asked for stands there at most once.
-/

namespace Stowage.Chunk.Query

inductive Malformed where
  | noNumber (why : Word64.Fault)
  | noFlag
deriving DecidableEq, Repr

def Malformed.message : Malformed → String
  | noNumber why => why.message
  | noFlag => "provided string was not \x60true\x60 or \x60false\x60"

inductive Fault where
  | missing (key : String)
  | duplicate (key : String)
  | malformed (key : String) (why : Malformed)
deriving DecidableEq, Repr

def Fault.message : Fault → String
  | missing key => s!"missing field \x60{key}\x60"
  | duplicate key => s!"duplicate field \x60{key}\x60"
  | malformed key why => s!"{key}: {why.message}"

def flag (text : String) : Except Malformed Bool :=
  if text = "true" then .ok true else if text = "false" then .ok false else .error .noFlag

inductive Kind where
  | number
  | flag
deriving DecidableEq, Repr

inductive Value where
  | number (n : Nat)
  | flag (b : Bool)
deriving DecidableEq, Repr

def read : Kind → String → Except Malformed Value
  | .number, text =>
    match Word64.read text with
    | .ok n => .ok (.number n)
    | .error why => .error (.noNumber why)
  | .flag, text => (flag text).map Value.flag

/-- Reads the fields that are asked for, on top of those already read. -/
def collect (kinds : List (String × Kind)) (got : List (String × Value)) :
    List (String × String) → Except Fault (List (String × Value))
  | [] => .ok got
  | (key, text) :: rest =>
    match kinds.find? fun k => k.1 == key with
    | none => collect kinds got rest
    | some (_, kind) =>
      if got.any fun g => g.1 == key then .error (.duplicate key)
      else
        match read kind text with
        | .error why => .error (.malformed key why)
        | .ok value => collect kinds (got ++ [(key, value)]) rest

def required (got : List (String × Value)) (key : String) : Except Fault Nat :=
  match got.find? fun g => g.1 == key with
  | some (_, .number n) => .ok n
  | _ => .error (.missing key)

/-- A flag that is down unless it is there. -/
def optionalFlag (got : List (String × Value)) (key : String) : Bool :=
  match got.find? fun g => g.1 == key with
  | some (_, .flag b) => b
  | _ => false

/-- What is said of a chunk that is to be stored: its offset, the size of the whole, and whether it is
the last. -/
structure Placement where
  offset : Nat
  total : Nat
  isLast : Bool
deriving DecidableEq, Repr

def placement (query : Bytes) : Except Fault Placement := do
  let got ← collect [("offset", .number), ("total_size", .number), ("is_last", .flag)] []
    (Form.decode query)
  let offset ← required got "offset"
  let total ← required got "total_size"
  .ok ⟨offset, total, optionalFlag got "is_last"⟩

/-- What is said of a chunk that is wanted: its offset and its length. -/
structure Extent where
  offset : Nat
  length : Nat
deriving DecidableEq, Repr

def extent (query : Bytes) : Except Fault Extent := do
  let got ← collect [("offset", .number), ("length", .number)] [] (Form.decode query)
  let offset ← required got "offset"
  let length ← required got "length"
  .ok ⟨offset, length⟩

end Stowage.Chunk.Query
