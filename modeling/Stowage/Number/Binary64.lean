/-!
# Stowage — binary64 numbers

A finite binary64 number is a sign and a whole number of units of 2^-1074, the spacing of the
smallest such numbers. All arithmetic is exact on natural numbers and then rounded once to the
nearest representable magnitude, ties to the even mantissa.
-/

namespace Stowage

/-- A finite binary64 number: its sign and its magnitude in units of 2^-1074. -/
structure Binary64 where
  negative : Bool
  units : Nat
deriving DecidableEq, Repr

namespace Binary64

/-- The number of units in 1. -/
def one : Nat := 1 <<< 1074

/-- The first magnitude, in units, that has no finite form. -/
def limit : Nat := 1 <<< 2098

/-- `num / den` to the nearest whole number, a half to the even one. -/
def roundHalfEven (num den : Nat) : Nat :=
  let q := num / den
  let r := num % den
  if 2 * r < den then q else if den < 2 * r then q + 1 else q + q % 2

/-- The spacing of the representable magnitudes around `units`: 53 bits are kept. -/
def spacing (units : Nat) : Nat := 1 <<< (units.log2 + 1 - 53)

/-- The representable magnitude nearest to `num / den` units. -/
def round (num den : Nat) : Nat :=
  let step := spacing (num / den)
  roundHalfEven num (den * step) * step

def ofNat (n : Nat) : Nat := round (n * one) 1

/-- The nearest magnitude to `10 ^ k`. -/
def tenPow (k : Nat) : Nat := ofNat (Nat.pow 10 k)

def mul (a b : Nat) : Nat := round (a * b) one

def div (a b : Nat) : Nat := round (a * one) b

/-- The magnitude nearest to `digits * 10 ^ exponent`; `none` when it is beyond the finite range.
Exponents so far out that every non-zero value overflows or vanishes are settled without computing
the power. -/
def ofDecimal? (digits : Nat) (exponent : Int) : Option Nat :=
  if digits = 0 then some 0
  else if 310 < exponent then none
  else
    let size := (Nat.toDigits 10 digits).length
    if exponent + size < -330 then some 0
    else
      let units := match exponent with
        | .ofNat k => round (digits * Nat.pow 10 k * one) 1
        | .negSucc k => round (digits * one) (Nat.pow 10 (k + 1))
      if units < limit then some units else none

/-- The natural number a magnitude is equal to, if it is whole. -/
def toNat? (x : Binary64) : Option Nat :=
  if x.negative ∧ x.units ≠ 0 then none
  else if x.units % one = 0 then some (x.units / one) else none

end Binary64

end Stowage
