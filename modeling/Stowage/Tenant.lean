import Stowage.Config.Error
/-!
# Stowage — tenants

A tenant owns records. Its name is the name of one directory below the root of all records.
-/

namespace Stowage.Tenant

def hasDoubleDot : List Char → Bool
  | '.' :: '.' :: _ => true
  | _ :: rest => hasDoubleDot rest
  | [] => false

/-- Whether a name can name a directory: neither empty nor a dot, without two dots in a row and
without separators. -/
def isValid (name : String) : Bool :=
  let cs := name.toList
  !(cs.isEmpty || cs == ['.'] || hasDoubleDot cs || cs.contains '/' || cs.contains '\\')

def check (name : String) : Except Config.Error Unit :=
  if isValid name then .ok () else .error (.tenant name)

end Stowage.Tenant
