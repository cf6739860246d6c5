import Stowage.Text.Quoted
/-!
# Stowage — mismatches of shape

Well-formed data that does not have the shape it is read for: a value of another kind or out of
range, a member that is missing or given twice, a sequence that is too short.
-/

namespace Stowage

/-- What was found instead. Floats carry the text that the format writes them with. -/
inductive Found where
  | null
  | unit
  | boolean (b : Bool)
  | integer (i : Int)
  | wideInteger (i : Int)
  | float (text : String)
  | text (s : String)
  | sequence
  | map
deriving DecidableEq, Repr

namespace Found

def describe : Found → String
  | .null => "null"
  | .unit => "unit value"
  | .boolean b => s!"boolean `{b}`"
  | .integer i => s!"integer `{i}`"
  | .wideInteger i => s!"integer `{i}` as " ++ if i < 0 then "i128" else "u128"
  | .float digits => s!"floating point `{digits}`"
  | .text s => "string " ++ Quoted.write s
  | .sequence => "sequence"
  | .map => "map"

end Found

/-- How data fails to have the shape it is read for. -/
inductive Mismatch where
  | invalidType (found : Found) (expected : String)
  | invalidValue (found : Found) (expected : String)
  | invalidLength (found : Nat) (expected : String)
  | missing (member : String)
  | duplicate (member : String)
deriving DecidableEq, Repr

namespace Mismatch

def message : Mismatch → String
  | invalidType found expected => s!"invalid type: {found.describe}, expected {expected}"
  | invalidValue found expected => s!"invalid value: {found.describe}, expected {expected}"
  | invalidLength found expected => s!"invalid length {found}, expected {expected}"
  | missing member => s!"missing field `{member}`"
  | duplicate member => s!"duplicate field `{member}`"

end Mismatch

end Stowage
