/-!
# Stowage — 64-bit numbers in text

Unsigned 64-bit numbers as they are spelled in queries, headers and arguments: decimal digits, perhaps
after a plus sign.
-/

namespace Stowage.Word64

inductive Fault where
  | noDigits
  | badDigit
  | tooLarge
deriving DecidableEq, Repr

def Fault.message : Fault → String
  | noDigits => "cannot parse integer from empty string"
  | badDigit => "invalid digit found in string"
  | tooLarge => "number too large to fit in target type"

def limit : Nat := 1 <<< 64

/-- Reads digits onto a number. The first digit that does not fit or is none decides. -/
def digits : Nat → List Char → Except Fault Nat
  | n, [] => .ok n
  | n, c :: rest =>
    if ¬c.isDigit then .error .badDigit
    else if n * 10 + (c.toNat - 48) < limit then digits (n * 10 + (c.toNat - 48)) rest
    else .error .tooLarge

def read (text : String) : Except Fault Nat :=
  match text.toList with
  | [] => .error .noDigits
  | ['+'] => .error .badDigit
  | '+' :: rest => digits 0 rest
  | cs => digits 0 cs

end Stowage.Word64
