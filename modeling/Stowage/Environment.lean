/-!
# Stowage — the environment

The variables a program is started with.
-/

namespace Stowage

abbrev Environment := List (String × String)

namespace Environment

def get? (env : Environment) (name : String) : Option String :=
  (env.find? fun entry => entry.1 == name).map Prod.snd

/-- Gives a variable a value unless it has one. -/
def provide (env : Environment) (name value : String) : Environment :=
  match env.get? name with
  | some _ => env
  | none => env ++ [(name, value)]

end Environment

end Stowage
