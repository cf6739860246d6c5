import Stowage.Number.Binary64
/-!
# Stowage — JSON values

A JSON value with objects in the order in which their keys first appear. Whole numbers of the
signed and unsigned 64-bit ranges are kept exactly, every other number as a binary64.
-/

namespace Stowage

/-- A JSON number: a whole number, or a binary64. -/
inductive Json.Number where
  | int (i : Int)
  | real (x : Binary64)
deriving DecidableEq, Repr

/-- The binary64 nearest to a number. -/
def Json.Number.toBinary64 : Json.Number → Binary64
  | .int i => ⟨i < 0, Binary64.ofNat i.natAbs⟩
  | .real x => x

inductive Json where
  | null
  | bool (b : Bool)
  | number (n : Json.Number)
  | string (s : String)
  | array (items : List Json)
  | object (members : List (String × Json))
deriving Repr, Inhabited

namespace Json

abbrev Members := List (String × Json)

namespace Members

def get? (members : Members) (key : String) : Option Json :=
  (members.find? fun m => m.1 == key).map Prod.snd

/-- Puts a value under a key. A key that is already there keeps its place. -/
def insert (members : Members) (key : String) (value : Json) : Members :=
  if members.any fun m => m.1 == key then
    members.map fun m => if m.1 == key then (key, value) else m
  else members ++ [(key, value)]

/-- The members that remain when later values replace earlier ones of the same key. -/
def ofList (pairs : List (String × Json)) : Members :=
  pairs.foldl (fun members p => members.insert p.1 p.2) []

end Members

/-- Numbers of the unsigned 64-bit range are below this. -/
def wordLimit : Nat := 1 <<< 64

def get? : Json → String → Option Json
  | object members, key => Members.get? members key
  | _, _ => none

/-- The unsigned 64-bit number a value is. -/
def toNat? : Json → Option Nat
  | number (.int i) => if 0 ≤ i ∧ i < wordLimit then some i.toNat else none
  | _ => none

/-- The text a value is. -/
def toText? : Json → Option String
  | string s => some s
  | _ => none

end Json

end Stowage
