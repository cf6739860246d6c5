/-!
# Stowage — file errors

Why a file could not be read or written, with the numbers and texts of the operating system.
-/

namespace Stowage.Disk

/-- Why a step on files failed. The last two are found before the operating system is asked. -/
inductive Error where
  | notFound
  | exists
  | notDirectory
  | isDirectory
  | invalidArgument
  | nameTooLong
  | notEmpty
  | zeroByte
  | notText
  | other (code : Nat) (text : String)
deriving DecidableEq, Repr

/-- The error with a number and a text of the operating system. -/
def Error.ofCode (code : Nat) (text : String) : Error :=
  match code with
  | 2 => notFound
  | 17 => .exists
  | 20 => notDirectory
  | 21 => isDirectory
  | 22 => invalidArgument
  | 36 => nameTooLong
  | 39 => notEmpty
  | code => other code text

def Error.message : Error → String
  | .notFound => "No such file or directory (os error 2)"
  | .exists => "File exists (os error 17)"
  | .notDirectory => "Not a directory (os error 20)"
  | .isDirectory => "Is a directory (os error 21)"
  | .invalidArgument => "Invalid argument (os error 22)"
  | .nameTooLong => "File name too long (os error 36)"
  | .notEmpty => "Directory not empty (os error 39)"
  | .zeroByte => "file name contained an unexpected NUL byte"
  | .notText => "stream did not contain valid UTF-8"
  | .other code text => s!"{text} (os error {code})"

end Stowage.Disk
