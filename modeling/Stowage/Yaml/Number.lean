import Stowage.Number.Shortest
/-!
# Stowage — scalars that mean more than their text

What a plain scalar means: nothing, a boolean, a whole number in one of four bases, a decimal number,
or its text. Digits after a leading zero are text.
-/

namespace Stowage.Yaml

/-- A decimal number, as far as a scalar can spell one. -/
inductive Real where
  | finite (x : Binary64)
  | infinite (negative : Bool)
  | notANumber
deriving DecidableEq, Repr

/-- Writes a decimal number positionally, however long that gets. -/
def Real.text : Real → String
  | finite x => Layout.writeBinary64 ⟨-400, 400, false⟩ x
  | infinite negative => if negative then "-inf" else "inf"
  | notANumber => "NaN"

inductive Meaning where
  | nothing
  | boolean (b : Bool)
  | integer (i : Int)
  | wideInteger (i : Int)
  | real (x : Real)
  | text
deriving DecidableEq, Repr

namespace Meaning

def isNothing (s : String) : Bool := s = "null" ∨ s = "Null" ∨ s = "NULL" ∨ s = "~"

def boolean? (s : String) : Option Bool :=
  if s = "true" ∨ s = "True" ∨ s = "TRUE" then some true
  else if s = "false" ∨ s = "False" ∨ s = "FALSE" then some false
  else none

def digit? (base : Nat) (c : Char) : Option Nat :=
  let value :=
    if c.isDigit then some (c.toNat - 48)
    else if 'a' ≤ c ∧ c ≤ 'f' then some (c.toNat - 87)
    else if 'A' ≤ c ∧ c ≤ 'F' then some (c.toNat - 55)
    else none
  value.filter (· < base)

/-- The number that digits spell, at least one of them. -/
def natural? (base : Nat) : List Char → Option Nat
  | [] => none
  | digits => digits.foldl (fun n c => do (← n) * base + (← digit? base c)) (some 0)

/-- A base by the letter after the leading zero. -/
def base? (letter : Char) : Option Nat :=
  if letter = 'x' then some 16 else if letter = 'o' then some 8 else if letter = 'b' then some 2
  else none

/-- Whether a text is digits after a leading zero. -/
def isPaddedNumber (s : List Char) : Bool :=
  let unsigned := match s with
    | '-' :: rest => rest
    | '+' :: rest => rest
    | rest => rest
  match unsigned with
  | '0' :: c :: rest => (c :: rest).all Char.isDigit
  | _ => false

/-- The number a text spells without a minus sign, if it is below a bound. -/
def unsigned? (bound : Nat) (s : List Char) : Option Nat :=
  let body := match s with
    | '+' :: rest => rest
    | rest => rest
  let based := match body with
    | '0' :: letter :: digits => do (natural? (← base? letter) digits).filter (· < bound)
    | _ => none
  match based with
  | some n => some n
  | none => if isPaddedNumber s then none else (natural? 10 body).filter (· < bound)

/-- The number a text spells with a minus sign, if it is not below the negative of a bound. -/
def negative? (bound : Nat) (s : List Char) : Option Int :=
  match s with
  | '-' :: body =>
    let based := match body with
      | '0' :: letter :: digits => do (natural? (← base? letter) digits).filter (· ≤ bound)
      | _ => none
    let n := match based with
      | some n => some n
      | none => if isPaddedNumber s then none else (natural? 10 body).filter (· ≤ bound)
    n.map fun n => -(n : Int)
  | _ => none

/-- The parts of a decimal number: its digits, the number of them after the point, its exponent. -/
structure Parts where
  digits : List Char
  places : Nat
  exponent : Int

def parts? (s : List Char) : Option Parts := do
  let whole := s.takeWhile Char.isDigit
  let rest := s.dropWhile Char.isDigit
  let (fraction, rest) := match rest with
    | '.' :: rest => (rest.takeWhile Char.isDigit, rest.dropWhile Char.isDigit)
    | rest => ([], rest)
  if whole.isEmpty ∧ fraction.isEmpty then none
  else
    match rest with
    | [] => some ⟨whole ++ fraction, fraction.length, 0⟩
    | mark :: rest =>
      if mark = 'e' ∨ mark = 'E' then
        let (down, digits) := match rest with
          | '-' :: digits => (true, digits)
          | '+' :: digits => (false, digits)
          | digits => (false, digits)
        let n ← natural? 10 digits
        some ⟨whole ++ fraction, fraction.length, if down then -(n : Int) else n⟩
      else none

/-- The decimal number a text spells. One beyond the finite range is none. -/
def real? (s : String) : Option Real :=
  let cs := s.toList
  let body := match cs with
    | '+' :: rest => rest
    | rest => rest
  let doublySigned := cs.head? = some '+' ∧ (body.head? = some '+' ∨ body.head? = some '-')
  let bodyText := String.ofList body
  if doublySigned then none
  else if bodyText = ".inf" ∨ bodyText = ".Inf" ∨ bodyText = ".INF" then some (.infinite false)
  else if s = "-.inf" ∨ s = "-.Inf" ∨ s = "-.INF" then some (.infinite true)
  else if s = ".nan" ∨ s = ".NaN" ∨ s = ".NAN" then some .notANumber
  else do
    let (negative, digits) := match body with
      | '-' :: rest => (true, rest)
      | '+' :: rest => (false, rest)
      | rest => (false, rest)
    let p ← parts? digits
    let n ← natural? 10 p.digits
    let units ← Binary64.ofDecimal? n (p.exponent - p.places)
    some (.finite ⟨negative, units⟩)

/-- The whole number a text spells. Those beyond 64 bits, up to 128 bits, are wide. -/
def integer? (s : String) : Option Meaning :=
  let cs := s.toList
  match unsigned? (1 <<< 64) cs, negative? (1 <<< 63) cs with
  | some n, _ => some (.integer n)
  | none, some i => some (.integer i)
  | none, none =>
    match unsigned? (1 <<< 128) cs, negative? (1 <<< 127) cs with
    | some n, _ => some (.wideInteger n)
    | none, some i => some (.wideInteger i)
    | none, none => none

def ofPlain (s : String) : Meaning :=
  if s.isEmpty ∨ isNothing s then .nothing
  else
    match boolean? s with
    | some b => .boolean b
    | none =>
      match integer? s with
      | some meaning => meaning
      | none =>
        if isPaddedNumber s.toList then .text
        else
          match real? s with
          | some x => .real x
          | none => .text

end Meaning

end Stowage.Yaml
