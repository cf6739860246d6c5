import Stowage.Url.Error
import Stowage.Url.Percent
/-!
# Stowage — machines in URLs

The name or address of a machine as it stands in a URL, brought to its one written form: names in
small letters, addresses with four decimal numbers or eight hexadecimal ones. A name whose last part
is a number is an address. Names outside ASCII are kept as they are.
-/

namespace Stowage.Url.Host

/-! ## Addresses of four numbers -/

/-- A number in a base, if all characters are digits of that base. -/
def number? (base : Nat) (cs : List Char) : Option Nat :=
  cs.foldl (fun n c => do
    let digit ← Hex.value? c
    if digit < base then some ((← n) * base + digit) else none) (some 0)

/-- A part of an address: decimal, or octal after a zero, or hexadecimal after `0x`. -/
def part? : List Char → Option Nat
  | [] => none
  | '0' :: 'x' :: digits => number? 16 digits
  | '0' :: 'X' :: digits => number? 16 digits
  | '0' :: d :: digits => number? 8 (d :: digits)
  | digits => number? 10 digits

/-- The parts of a name. A dot at the end does not begin another part. -/
def parts (name : List Char) : List (List Char) :=
  let parts := name.splitOn '.'
  if 1 < parts.length ∧ parts.getLast? = some [] then parts.dropLast else parts

/-- Whether the last part of a name is a number, so that the name has to be an address. -/
def endsInNumber (name : List Char) : Bool :=
  match (parts name).getLast? with
  | some last => (!last.isEmpty && last.all Char.isDigit) || (part? last).isSome
  | none => false

/-- The value of an address: the last part fills what the others leave. -/
def address4? (name : List Char) : Option Nat := do
  let numbers ← (parts name).mapM part?
  let last ← numbers.getLast?
  let others := numbers.dropLast
  if others.length ≤ 3 ∧ others.all (· < 256) ∧ last < Nat.pow 256 (4 - others.length) then
    some (others.foldr (fun n rest => rest / 256 + n * Nat.pow 256 3) 0 + last)
  else none

def text4 (address : Nat) : String :=
  ".".intercalate ([3, 2, 1, 0].map fun i => toString (address / Nat.pow 256 i % 256))

/-! ## Addresses of eight numbers -/

/-- A piece of an address: up to four hexadecimal digits. -/
def piece? (cs : List Char) : Option Nat :=
  if cs.isEmpty ∨ 4 < cs.length then none else number? 16 cs

/-- A decimal number up to 255 without needless zeros. -/
def byte? (cs : List Char) : Option Nat :=
  if cs.isEmpty ∨ (1 < cs.length ∧ cs.head? = some '0') then none
  else (number? 10 cs).filter (· < 256)

/-- The two pieces that four decimal numbers stand for. -/
def embedded? (cs : List Char) : Option (List Nat) :=
  match (cs.splitOn '.').map byte? with
  | [some a, some b, some c, some d] => some [a * 256 + b, c * 256 + d]
  | _ => none

/-- The pieces between colons. Only the end of an address can be written as four decimal numbers. -/
def pieces? (atEnd : Bool) : List (List Char) → Option (List Nat)
  | [] => some []
  | [last] =>
    if atEnd ∧ last.contains '.' then embedded? last else (piece? last).map fun n => [n]
  | cs :: rest => do
    let n ← piece? cs
    let rest ← pieces? atEnd rest
    some (n :: rest)

def run? (atEnd : Bool) (cs : List Char) : Option (List Nat) :=
  if cs.isEmpty then some [] else pieces? atEnd (cs.splitOn ':')

/-- Takes a text apart at its first two colons in a row. -/
def splitDouble : List Char → Option (List Char × List Char)
  | ':' :: ':' :: rest => some ([], rest)
  | c :: rest => (splitDouble rest).map fun s => (c :: s.1, s.2)
  | [] => none

/-- The eight pieces of an address. Two colons stand for one zero or more. -/
def address6? (cs : List Char) : Option (List Nat) :=
  match splitDouble cs with
  | none => (run? true cs).filter fun pieces => pieces.length = 8
  | some (before, after) => do
    let before ← run? false before
    let after ← run? true after
    if before.length + after.length ≤ 7 then
      some (before ++ List.replicate (8 - before.length - after.length) 0 ++ after)
    else none

def zeros (pieces : List Nat) : Nat := (pieces.takeWhile (· = 0)).length

/-- The longest run of zeros from a place on, and where it starts; of equal ones the first. -/
def longestRun : Nat → List Nat → Nat × Nat
  | _, [] => (0, 0)
  | i, n :: rest =>
    let later := longestRun (i + 1) rest
    let here := zeros (n :: rest)
    if later.1 ≤ here then (here, i) else later

def joined (pieces : List Nat) : String :=
  ":".intercalate (pieces.map fun n => String.ofList (Nat.toDigits 16 n))

/-- The text of an address, with its longest run of two zeros or more left out. -/
def text6 (pieces : List Nat) : String :=
  let (length, start) := longestRun 0 pieces
  "[" ++ (if length < 2 then joined pieces
    else joined (pieces.take start) ++ "::" ++ joined (pieces.drop (start + length))) ++ "]"

def ofBrackets (cs : List Char) : Except Error String :=
  match cs.getLast?, address6? (cs.drop 1).dropLast with
  | some ']', some pieces => .ok (text6 pieces)
  | _, _ => .error .invalidIpv6

/-! ## Names -/

/-- The characters that no name can hold. -/
def forbidden : List Char :=
  ['\x00', '\t', '\n', '\r', ' ', '#', '/', ':', '<', '>', '?', '@', '[', '\\', ']', '^', '|']

def isForbidden (c : Char) : Bool :=
  c.toNat < 0x20 || c = '\x7f' || c = '%' || forbidden.contains c

def ofWeb (cs : List Char) : Except Error String :=
  if cs.head? = some '[' then ofBrackets cs
  else
    match Utf8.decode? (Percent.decode (Utf8.encode cs)) with
    | none => .error .invalidName
    | some name =>
      let name := name.toList.map Char.toLower
      if name.any isForbidden then .error .invalidName
      else if name.isEmpty then .error .emptyHost
      else if endsInNumber name then
        match address4? name with
        | some address => .ok (text4 address)
        | none => .error .invalidIpv4
      else .ok (String.ofList name)

def ofOther (cs : List Char) : Except Error String :=
  if cs.head? = some '[' then ofBrackets cs
  else if cs.any forbidden.contains then .error .invalidHostCharacter
  else .ok (String.ofList (Percent.encode [] cs))

end Stowage.Url.Host
