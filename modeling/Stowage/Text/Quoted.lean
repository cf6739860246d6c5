import Stowage.Text.Unprintable
/-!
# Stowage — quoted text

Texts are quoted in messages between double quotes, with escapes for quotes, backslashes, the
common controls and every character that has no picture of its own.
-/

namespace Stowage.Quoted

def hex (n : Nat) : List Char := Nat.toDigits 16 n

/-- How one character is written between the quotes. -/
def escape (c : Char) : List Char :=
  if c = '\x00' then ['\\', '0']
  else if c = '\t' then ['\\', 't']
  else if c = '\n' then ['\\', 'n']
  else if c = '\r' then ['\\', 'r']
  else if c = '"' then ['\\', '"']
  else if c = '\\' then ['\\', '\\']
  else if Unprintable.holds c then "\\u\x7b".toList ++ hex c.toNat ++ ['\x7d']
  else [c]

def write (text : String) : String :=
  String.ofList ('"' :: text.toList.flatMap escape ++ ['"'])

end Stowage.Quoted
