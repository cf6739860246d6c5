import Stowage.Text.Utf8
/-!
# Stowage — hexadecimal digits

The digits of both cases and their values, and the two digits of a byte.
-/

namespace Stowage.Hex

def value? (c : Char) : Option Nat :=
  if '0' ≤ c ∧ c ≤ '9' then some (c.toNat - 48)
  else if 'a' ≤ c ∧ c ≤ 'f' then some (c.toNat - 87)
  else if 'A' ≤ c ∧ c ≤ 'F' then some (c.toNat - 55)
  else none

/-- The value of a digit that is given as a byte. -/
def ofByte? (b : UInt8) : Option Nat :=
  if 48 ≤ b ∧ b ≤ 57 then some (b.toNat - 48)
  else if 97 ≤ b ∧ b ≤ 102 then some (b.toNat - 87)
  else if 65 ≤ b ∧ b ≤ 70 then some (b.toNat - 55)
  else none

/-- The capital digit of a value below 16. -/
def capital (n : Nat) : Char := (Nat.digitChar n).toUpper

def pair (b : UInt8) : List Char := [Nat.digitChar (b.toNat / 16), Nat.digitChar (b.toNat % 16)]

def capitalPair (b : UInt8) : List Char := [capital (b.toNat / 16), capital (b.toNat % 16)]

end Stowage.Hex
