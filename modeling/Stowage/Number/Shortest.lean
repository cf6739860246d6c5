import Stowage.Number.Binary64
/-!
# Stowage — shortest decimal text

The decimal digits that stand for a binary64 number: the fewest that read back to it, and of those
the nearest to it. `Decimal` is the result, a whole number of digits and a power of ten; `Layout`
says how such a decimal is written.
-/

namespace Stowage

/-- `digits * 10 ^ exponent`, without trailing zero digits. -/
structure Decimal where
  digits : Nat
  exponent : Int
deriving DecidableEq, Repr

namespace Shortest

/-- The open or closed interval of reals that round to a magnitude, in quarters of a unit. -/
structure Basin where
  low : Nat
  high : Nat
  closed : Bool
deriving DecidableEq, Repr

/-- Half a spacing to each side; below a power of two the spacing is half as wide. -/
def basin (units : Nat) : Basin :=
  let step := Binary64.spacing units
  let below := if units = (1 <<< 52) * step ∧ 1 < step then step / 2 else step
  ⟨4 * units - 2 * below, 4 * units + 2 * step, (units / step) % 2 = 0⟩

/-- `c * 10 ^ e` in quarters of a unit, over the denominator of `scale e`. -/
def numerator (c : Nat) : Int → Nat
  | .ofNat k => c * Nat.pow 10 k * (4 * Binary64.one)
  | .negSucc _ => c * (4 * Binary64.one)

/-- The denominator that goes with `numerator`. -/
def scale : Int → Nat
  | .ofNat _ => 1
  | .negSucc k => Nat.pow 10 (k + 1)

/-- Whether `c * 10 ^ e` lies in the basin. -/
def Basin.holds (b : Basin) (c : Nat) (e : Int) : Bool :=
  let n := numerator c e
  let d := scale e
  if b.closed then b.low * d ≤ n ∧ n ≤ b.high * d else b.low * d < n ∧ n < b.high * d

/-- The whole part of `units / 10 ^ e`. -/
def below (units : Nat) : Int → Nat
  | .ofNat k => units / (Binary64.one * Nat.pow 10 k)
  | .negSucc k => units * Nat.pow 10 (k + 1) / Binary64.one

/-- Whether `c * 10 ^ e` is at least as near to the magnitude as its upper neighbour. -/
def nearer (units c : Nat) (e : Int) : Bool :=
  numerator c e + numerator (c + 1) e ≥ 2 * (4 * units) * scale e

/-- The exponent of the leading digit of a magnitude below one: how often it has to be multiplied by
ten to reach one. -/
def leadingBelowOne : Nat → Nat → Nat → Nat
  | 0, _, k => k
  | fuel + 1, units, k => if Binary64.one ≤ units then k else leadingBelowOne fuel (units * 10) (k + 1)

/-- The exponent `e` with `10 ^ e ≤ units < 10 ^ (e + 1)`. -/
def leading (units : Nat) : Int :=
  if Binary64.one ≤ units then ((Nat.toDigits 10 (units / Binary64.one)).length : Int) - 1
  else -(leadingBelowOne 400 units 0 : Int)

/-- Looks for the first grid with a point in the basin, coarse grids first. -/
def search (units : Nat) (b : Basin) : Nat → Int → Decimal
  | 0, e => ⟨below units e, e⟩
  | fuel + 1, e =>
    let c := below units e
    match b.holds c e, b.holds (c + 1) e with
    | true, true => if nearer units c e then ⟨c, e⟩ else ⟨c + 1, e⟩
    | true, false => ⟨c, e⟩
    | false, true => ⟨c + 1, e⟩
    | false, false => search units b fuel (e - 1)

/-- Moves trailing zero digits into the exponent. -/
def strip : Nat → Decimal → Decimal
  | 0, d => d
  | fuel + 1, d =>
    if d.digits ≠ 0 ∧ d.digits % 10 = 0 then strip fuel ⟨d.digits / 10, d.exponent + 1⟩ else d

/-- The shortest decimal of a non-zero magnitude. At most 17 digits are ever needed. -/
def ofUnits (units : Nat) : Decimal :=
  strip 20 (search units (basin units) 17 (leading units))

end Shortest

/-- How a decimal is written. Positional notation is used when the decimal point falls between
`positionalFrom` and `positionalTo` digits after the first digit's left; otherwise the first digit
stands before the point and the exponent follows the mark, with a plus sign if `plus` is set. -/
structure Layout where
  positionalFrom : Int
  positionalTo : Int
  plus : Bool
deriving DecidableEq, Repr

namespace Layout

/-- Writes a decimal. Whole numbers in positional notation keep `.0`. -/
def write (layout : Layout) (d : Decimal) : String :=
  let digits := Nat.toDigits 10 d.digits
  let size : Int := digits.length
  let point := size + d.exponent
  if layout.positionalFrom ≤ point ∧ point ≤ layout.positionalTo then
    if 0 ≤ d.exponent then
      String.ofList (digits ++ List.replicate d.exponent.toNat '0') ++ ".0"
    else if 0 < point then
      String.ofList (digits.take point.toNat) ++ "." ++ String.ofList (digits.drop point.toNat)
    else "0." ++ String.ofList (List.replicate (-point).toNat '0' ++ digits)
  else
    let e := point - 1
    let mantissa := match digits with
      | [] => ""
      | [c] => String.ofList [c]
      | c :: rest => String.ofList (c :: '.' :: rest)
    mantissa ++ "e" ++ (if layout.plus ∧ 0 ≤ e then "+" else "") ++ toString e

/-- Writes a binary64 number, the sign of zero included. -/
def writeBinary64 (layout : Layout) (x : Binary64) : String :=
  (if x.negative then "-" else "") ++
    if x.units = 0 then "0.0" else layout.write (Shortest.ofUnits x.units)

end Layout

end Stowage
