import Stowage.Disk.Error
import Stowage.Text.Utf8
/-!
# Stowage — steps on files

The changes that are made to files, and the paths they are made at.
-/

namespace Stowage

namespace Path

/-- A path below another. An absolute path replaces what it would be below. -/
def join (base part : String) : String :=
  if part.startsWith "/" then part
  else if base.isEmpty ∨ base.endsWith "/" then base ++ part
  else base ++ "/" ++ part

end Path

inductive Disk.Change where
  /-- Makes a directory, and the directories above it, unless they are there. -/
  | createDirs (path : String)
  /-- Makes a file, or replaces the content of one. -/
  | write (path : String) (content : Bytes)
  /-- Gives a file another path, in place of what was there. -/
  | rename (source target : String)
  /-- Removes a file. -/
  | remove (path : String)
deriving DecidableEq, Repr

end Stowage
