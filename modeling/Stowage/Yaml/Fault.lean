import Stowage.Mismatch
/-!
# Stowage — faults in YAML text

A place in a YAML text, and why a text is not YAML or not the YAML that was asked for.
-/

namespace Stowage.Yaml

/-- A place between two characters: how many characters come before it in all, before its line, and
in its line before it. -/
structure Mark where
  index : Nat
  line : Nat
  column : Nat
deriving DecidableEq, Repr, Inhabited

def Mark.start : Mark := ⟨0, 0, 0⟩

/-- Whether a mark is in the first column of the first line. -/
def Mark.isOrigin (m : Mark) : Bool := m.line = 0 ∧ m.column = 0

/-- The text of a mark, with lines and columns counted from 1. -/
def Mark.text (m : Mark) : String :=
  if m.isOrigin then s!"position {m.index}" else s!"line {m.line + 1} column {m.column + 1}"

/-- Why a text cannot be read. A malformed text has a problem at a place, and perhaps the construct
that was being read with the place where it began. -/
inductive Fault where
  | controlCharacter (offset : Nat)
  | malformed (problem : String) (place : Mark) (context : Option (String × Mark))
  | unknownAnchor (place : Mark)
  | severalDocuments
  | endOfStream
  | mismatch (why : Mismatch) (path : String) (place : Mark)
deriving DecidableEq, Repr

/-- The place of a fault at the end of a message. -/
def Mark.suffix (m : Mark) : String := if m.isOrigin then "" else " at " ++ m.text

def Fault.message : Fault → String
  | controlCharacter offset =>
    "control characters are not allowed" ++ if offset = 0 then "" else s!" at position {offset}"
  | malformed problem place context =>
    problem ++ place.suffix ++ match context with
      | none => ""
      | some (during, start) =>
        ", " ++ during ++
          if start.line = place.line ∧ start.column = place.column then "" else " at " ++ start.text
  | unknownAnchor place => "unknown anchor" ++ place.suffix
  | severalDocuments =>
    "deserializing from YAML containing more than one document is not supported"
  | endOfStream => "EOF while parsing a value"
  | mismatch why path place =>
    (if path = "." then "" else path ++ ": ") ++ why.message ++ place.suffix

end Stowage.Yaml
