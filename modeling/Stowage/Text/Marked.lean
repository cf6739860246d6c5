import Stowage.Text.Utf8
/-!
# Stowage — text with a byte order mark

Text of an unknown encoding is UTF-8, unless it starts with the byte order mark of UTF-16. The mark
itself does not belong to the text. What is broken is replaced by U+FFFD.
-/

namespace Stowage.Marked

/-- The two bytes of a unit of UTF-16, the second of which comes first if `swapped`. -/
def unit (swapped : Bool) (a b : UInt8) : Nat :=
  if swapped then b.toNat * 256 + a.toNat else a.toNat * 256 + b.toNat

/-- The units of UTF-16 text, with nothing for a last half unit. -/
def units (swapped : Bool) : Bytes → List (Option Nat)
  | a :: b :: rest => some (unit swapped a b) :: units swapped rest
  | [_] => [none]
  | [] => []

/-- Whether a unit is the first of a surrogate pair. -/
def isHigh (n : Nat) : Bool := 0xD800 ≤ n && n < 0xDC00

/-- Whether a unit is the second of a surrogate pair. -/
def isLow (n : Nat) : Bool := 0xDC00 ≤ n && n < 0xE000

def replacement : Char := Char.ofNat 0xFFFD

def characters : List (Option Nat) → List Char
  | some high :: some low :: rest =>
    if isHigh high ∧ isLow low then
      Char.ofNat ((high - 0xD800) * 0x400 + (low - 0xDC00) + 0x10000) :: characters rest
    else (if isHigh high ∨ isLow high then replacement else Char.ofNat high) ::
      characters (some low :: rest)
  | [some high, none] =>
    if isHigh high then [replacement]
    else [if isLow high then replacement else Char.ofNat high, replacement]
  | [some n] => [if isHigh n ∨ isLow n then replacement else Char.ofNat n]
  | _ :: rest => replacement :: characters rest
  | [] => []

def decode : Bytes → String
  | 0xEF :: 0xBB :: 0xBF :: rest => Utf8.decodeLossy rest
  | 0xFF :: 0xFE :: rest => String.ofList (characters (units true rest))
  | 0xFE :: 0xFF :: rest => String.ofList (characters (units false rest))
  | bytes => Utf8.decodeLossy bytes

end Stowage.Marked
