import Stowage.Failure
/-!
# Stowage — reports

What the program says when it fails: what failed, and the causes one after the other, the nearest
first. Lines after the first of a cause are indented like it.
-/

namespace Stowage

/-- What the report on a failure says: its wording, and after that the wording of what lies behind it.
-/
def Failure.causes : Failure → List String
  | .encoding why => [(Failure.encoding why).message, why.message]
  | failure => [failure.message]

namespace Cli

structure Report where
  what : String
  causes : List String
deriving DecidableEq, Repr

namespace Report

/-- Puts blanks in front of every line but the first. -/
def indent (blanks : Nat) (text : String) : String :=
  ("\n" ++ String.ofList (List.replicate blanks ' ')).intercalate (text.splitOn "\n")

/-- The lines about a cause. Causes are numbered if there are several. -/
def causeLine (several : Bool) (number : Nat) (cause : String) : String :=
  if several then s!"\n    {number}: " ++ indent 7 cause else "\n    " ++ indent 4 cause

def causeLines (causes : List String) : String :=
  String.join (causes.mapIdx fun i cause => causeLine (1 < causes.length) i cause)

def text (r : Report) : String :=
  "Error: " ++ r.what ++
    (if r.causes.isEmpty then "" else "\n\nCaused by:" ++ causeLines r.causes) ++ "\n"

def ofFailure (failure : Failure) : Report := ⟨failure.message, failure.causes.tail⟩

def ofFailureIn (what : String) (failure : Failure) : Report := ⟨what, failure.causes⟩

def ofFile (what : String) (why : Disk.Error) : Report := ⟨what, [why.message]⟩

end Report

end Cli

end Stowage
