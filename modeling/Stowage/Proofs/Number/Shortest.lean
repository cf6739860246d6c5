import Mathlib.Algebra.Order.Ring.Rat
import Mathlib.Tactic.FieldSimp
import Mathlib.Tactic.Linarith
import Mathlib.Tactic.Ring
import Stowage.Number.Shortest
import Stowage.Proofs.Number.Binary64
/-!
# Stowage — the digits of a shortest decimal

The search for the shortest decimal of a magnitude goes through finer and finer grids of powers of ten.
On each it looks at the two points around the magnitude, the one `below` it (`le_below_iff`) and the next.
So what it finds has at least one digit and at most eighteen, and lies no higher than the magnitudes that
are rounded to this one (`ofUnits_found`).
-/

namespace Stowage

/-- The number that a decimal stands for. -/
def Decimal.value (d : Decimal) : ℚ := d.digits * 10 ^ d.exponent

namespace Shortest

theorem one_pos : (0 : ℚ) < (Binary64.one : ℚ) := Nat.cast_pos.mpr Binary64.one_pos

/-- A power of ten, among the natural and the rational numbers. -/
theorem tenPow_natCast (k : Nat) : (10 : ℚ) ^ (Int.ofNat k) = ((Nat.pow 10 k : Nat) : ℚ) := by
  rw [Int.ofNat_eq_natCast, zpow_natCast]
  exact (Nat.cast_pow 10 k).symm

/-- A negative power of ten is the inverse of a natural number. -/
theorem tenPow_negSucc (k : Nat) : (10 : ℚ) ^ (Int.negSucc k) * ((Nat.pow 10 (k + 1) : Nat) : ℚ) = 1 := by
  rw [zpow_negSucc]
  have hcast : ((Nat.pow 10 (k + 1) : Nat) : ℚ) = 10 ^ (k + 1) := Nat.cast_pow 10 (k + 1)
  rw [hcast]
  exact inv_mul_cancel₀ (pow_ne_zero _ (by norm_num))

/-- The point below a magnitude is the highest one that is not above it. -/
theorem le_below_iff (c units : Nat) (e : Int) :
    c ≤ below units e ↔ (c : ℚ) * 10 ^ e * Binary64.one ≤ units := by
  cases e with
  | ofNat k =>
    have hpos : 0 < Binary64.one * Nat.pow 10 k :=
      Nat.mul_pos Binary64.one_pos (Nat.pow_pos (by decide))
    rw [below, Nat.le_div_iff_mul_le hpos, tenPow_natCast, ← Nat.cast_mul, ← Nat.cast_mul,
      Nat.cast_le, Nat.mul_assoc, Nat.mul_comm (Nat.pow 10 k)]
  | negSucc k =>
    have hten : (0 : ℚ) < ((Nat.pow 10 (k + 1) : Nat) : ℚ) :=
      Nat.cast_pos.mpr (Nat.pow_pos (by decide))
    have hinv := tenPow_negSucc k
    rw [below, Nat.le_div_iff_mul_le Binary64.one_pos, ← Nat.cast_le (α := ℚ), Nat.cast_mul,
      Nat.cast_mul, ← mul_le_mul_iff_of_pos_right hten (b := (c : ℚ) * _ * _)]
    have hswap : (c : ℚ) * 10 ^ Int.negSucc k * Binary64.one * ((Nat.pow 10 (k + 1) : Nat) : ℚ) =
        c * Binary64.one := by
      rw [mul_right_comm _ (Binary64.one : ℚ), mul_assoc (c : ℚ), hinv, mul_one]
    rw [hswap]

/-- A grid ten times finer has ten points for each of the coarser one. -/
theorem below_pred (units : Nat) (e : Int) :
    10 * below units e ≤ below units (e - 1) ∧ below units (e - 1) < 10 * (below units e + 1) := by
  have hten : (10 : ℚ) ^ e = 10 * 10 ^ (e - 1) := by
    rw [← zpow_one_add₀ (by norm_num)]
    congr 1
    omega
  constructor
  · have h := (le_below_iff (below units e) units e).mp le_rfl
    rw [le_below_iff, Nat.cast_mul]
    rw [hten] at h
    push_cast
    linarith
  · by_contra hge
    have h := (le_below_iff (10 * (below units e + 1)) units (e - 1)).mp (Nat.le_of_not_lt hge)
    have hmore : below units e + 1 ≤ below units e := by
      rw [le_below_iff, hten]
      push_cast at h ⊢
      linarith
    omega

/-! ## The first grid

The search starts at the highest power of ten that is not above the magnitude. From there every grid
adds a digit, so the number of digits is known from the number of grids. -/

/-- Below one, the leading power is the first whose multiple reaches one. Induction on the fuel. -/
theorem leadingBelowOne_spec : ∀ (fuel units k : Nat), units < Binary64.one →
    Binary64.one ≤ units * 10 ^ fuel →
      ∃ j, leadingBelowOne fuel units k = k + (j + 1) ∧ Binary64.one ≤ units * 10 ^ (j + 1) ∧
        units * 10 ^ j < Binary64.one := by
  intro fuel
  induction fuel with
  | zero =>
    intro units k hlt hle
    rw [pow_zero, Nat.mul_one] at hle
    omega
  | succ fuel ih =>
    intro units k hlt hle
    rw [leadingBelowOne, if_neg (by omega)]
    -- either the next multiple reaches one, or the search goes on with ten times as much
    by_cases hten : Binary64.one ≤ units * 10
    · refine ⟨0, ?_, by omega, by omega⟩
      cases fuel with
      | zero => rfl
      | succ fuel => rw [leadingBelowOne, if_pos hten]
    · obtain ⟨j, hj, hlow, hhigh⟩ := ih (units * 10) (k + 1) (by omega) (by
        rw [Nat.mul_assoc, ← Nat.pow_succ']
        exact hle)
      refine ⟨j + 1, by omega, ?_, ?_⟩
      · rw [Nat.pow_succ', ← Nat.mul_assoc]
        exact hlow
      · rw [Nat.pow_succ', ← Nat.mul_assoc]
        exact hhigh

theorem leadingBelowOne_le : ∀ (fuel units k : Nat), leadingBelowOne fuel units k ≤ k + fuel := by
  intro fuel
  induction fuel with
  | zero => exact fun _ k => Nat.le_refl k
  | succ fuel ih =>
    intro units k
    have hnext := ih (units * 10) (k + 1)
    rw [leadingBelowOne]
    split <;> omega

/-- No magnitude has a leading power below the smallest that is tried. -/
theorem le_leading (units : Nat) : -400 ≤ leading units := by
  have hle := leadingBelowOne_le 400 units 0
  rw [leading]
  split <;> omega

/-- On the first grid, the point below a magnitude has one digit. -/
theorem below_leading {units : Nat} (h : units ≠ 0) :
    1 ≤ below units (leading units) ∧ below units (leading units) < 10 := by
  rw [leading]
  by_cases hone : Binary64.one ≤ units
  -- from one on, the digits of the whole part are counted
  · rw [if_pos hone]
    obtain ⟨size, hsize⟩ : ∃ k, (Nat.toDigits 10 (units / Binary64.one)).length = k + 1 :=
      ⟨_, (Nat.succ_pred_eq_of_pos Nat.length_toDigits_pos).symm⟩
    have hquot : 1 ≤ units / Binary64.one := (Nat.one_le_div_iff Binary64.one_pos).mpr hone
    have hexponent : (((Nat.toDigits 10 (units / Binary64.one)).length : Nat) : Int) - 1 =
        Int.ofNat size := by
      rw [hsize, Int.ofNat_eq_natCast]
      omega
    have hbelow : below units (Int.ofNat size) = units / Binary64.one / 10 ^ size :=
      (Nat.div_div_eq_div_mul _ _ _).symm
    rw [hexponent, hbelow, Nat.le_div_iff_mul_le (Nat.pow_pos (by decide)), Nat.one_mul,
      Nat.div_lt_iff_lt_mul (Nat.pow_pos (by decide)), ← Nat.pow_succ']
    constructor
    · cases size with
      | zero => exact hquot
      | succ size =>
        have hlong : ¬ (Nat.toDigits 10 (units / Binary64.one)).length ≤ size + 1 := by omega
        rw [Nat.length_toDigits_le_iff (by decide) (by omega)] at hlong
        omega
    · exact (Nat.length_toDigits_le_iff (by decide) (by omega)).mp (Nat.le_of_eq hsize)
  -- below one, ten is multiplied in until one is reached, which is long before the fuel ends
  · rw [if_neg hone]
    have hbig : Binary64.one ≤ 10 ^ 400 := by decide +kernel
    have hfuel : Binary64.one ≤ units * 10 ^ 400 :=
      Nat.le_trans hbig (Nat.le_mul_of_pos_left _ (Nat.pos_of_ne_zero h))
    obtain ⟨j, hj, hlow, hhigh⟩ := leadingBelowOne_spec 400 units 0 (by omega) hfuel
    have hexponent : -(leadingBelowOne 400 units 0 : Int) = Int.negSucc j := by
      rw [hj]
      omega
    have hbelow : below units (Int.negSucc j) = units * 10 ^ (j + 1) / Binary64.one := rfl
    rw [hexponent, hbelow, Nat.le_div_iff_mul_le Binary64.one_pos, Nat.one_mul,
      Nat.div_lt_iff_lt_mul Binary64.one_pos]
    refine ⟨hlow, ?_⟩
    rw [Nat.pow_succ, ← Nat.mul_assoc]
    omega

/-! ## The basin

The basin of a magnitude is the interval of the numbers that are rounded to it. A decimal serves if it
lies there, so it cannot be zero or much above the magnitude. -/

theorem scale_pos (e : Int) : 0 < scale e := by
  cases e with
  | ofNat k => exact Nat.one_pos
  | negSucc k => exact Nat.pow_pos (by decide)

/-- `numerator` over `scale` is what they stand for, in quarters of a unit. -/
theorem numerator_eq (c : Nat) (e : Int) :
    (numerator c e : ℚ) = c * 10 ^ e * (4 * Binary64.one) * scale e := by
  cases e with
  | ofNat k =>
    rw [numerator, scale, tenPow_natCast]
    push_cast
    ring
  | negSucc k =>
    have hinv := tenPow_negSucc k
    have hswap : (c : ℚ) * 10 ^ Int.negSucc k * (4 * Binary64.one) * ((Nat.pow 10 (k + 1) : Nat) : ℚ) =
        c * (4 * Binary64.one) * (10 ^ Int.negSucc k * ((Nat.pow 10 (k + 1) : Nat) : ℚ)) := by ring
    rw [numerator, scale, hswap, hinv]
    push_cast
    ring

theorem Basin.le_high {b : Basin} {c : Nat} {e : Int} (h : b.holds c e = true) :
    (c : ℚ) * 10 ^ e * (4 * Binary64.one) ≤ b.high := by
  have hle : numerator c e ≤ b.high * scale e := by
    simp only [holds] at h
    split at h
    · exact (of_decide_eq_true h).2
    · exact (of_decide_eq_true h).2.le
  rw [← Nat.cast_le (α := ℚ), numerator_eq, Nat.cast_mul] at hle
  exact le_of_mul_le_mul_right hle (Nat.cast_pos.mpr (scale_pos e))

/-- Zero is in no basin but its own. -/
theorem Basin.ne_zero {b : Basin} {c : Nat} {e : Int} (hlow : 0 < b.low) (h : b.holds c e = true) :
    c ≠ 0 := by
  rintro rfl
  have hzero : numerator 0 e = 0 := by
    cases e <;> simp [numerator]
  have hpos := Nat.mul_pos hlow (scale_pos e)
  simp only [holds, hzero] at h
  split at h
  · have := (of_decide_eq_true h).1
    omega
  · have := (of_decide_eq_true h).1
    omega

/-- The basin of a magnitude lies above zero. -/
theorem basin_low_pos {units : Nat} (h : units ≠ 0) : 0 < (basin units).low := by
  have hstep := Binary64.spacing_le h
  simp only [basin]
  split <;> omega

theorem le_basin_high (units : Nat) : 4 * units ≤ (basin units).high := Nat.le_add_right _ _

/-! ## What is found

On the last grid the point below the magnitude is taken without asking whether it lies in the basin. It
is no higher than the magnitude all the same. -/

/-- `Found units d`: a decimal has at least one digit and at most eighteen, but for a power of ten, starts
on one of the grids, and is no higher than what is rounded to a magnitude. -/
structure Found (units : Nat) (d : Decimal) : Prop where
  ne_zero : d.digits ≠ 0
  digits : d.digits ≤ 10 ^ 18
  exponent : -417 ≤ d.exponent
  value : d.value * (4 * Binary64.one) ≤ (basin units).high

/-- Each grid has one digit more. Induction on the grids that are left. -/
theorem search_found {units : Nat} (h : units ≠ 0) : ∀ (fuel more : Nat) (e : Int), fuel + more = 17 →
    -400 ≤ e + more → 1 ≤ below units e → below units e < 10 ^ (more + 1) →
      Found units (search units (basin units) fuel e) := by
  intro fuel
  induction fuel with
  | zero =>
    -- on the last grid the point below is taken, whether it is in the basin or not
    intro more e hfuel hlow hone hlt
    obtain rfl : more = 17 := by omega
    have hbelow := (le_below_iff (below units e) units e).mp le_rfl
    have hhigh : ((4 * units : Nat) : ℚ) ≤ (basin units).high := Nat.cast_le.mpr (le_basin_high units)
    push_cast at hhigh
    rw [search]
    refine ⟨Nat.ne_of_gt hone, hlt.le, by simp only; omega, ?_⟩
    rw [Decimal.value]
    linarith
  | succ fuel ih =>
    intro more e hfuel hlow hone hlt
    have hpow : 10 ^ (more + 1) ≤ 10 ^ 18 := Nat.pow_le_pow_right (by decide) (by omega)
    have hfound : ∀ c, c ≤ below units e + 1 → (basin units).holds c e = true → Found units ⟨c, e⟩ :=
      fun c hc hholds => ⟨Basin.ne_zero (basin_low_pos h) hholds, by simp only; omega, by simp only; omega,
        Basin.le_high hholds⟩
    rw [search]
    split
    · next hbelow hhigh =>
      split
      · exact hfound _ (Nat.le_succ _) hbelow
      · exact hfound _ (Nat.le_refl _) hhigh
    · next hbelow _ => exact hfound _ (Nat.le_succ _) hbelow
    · next _ hhigh => exact hfound _ (Nat.le_refl _) hhigh
    -- neither point is in the basin, so a finer grid is looked at
    · obtain ⟨hten, hnext⟩ := below_pred units e
      refine ih (more + 1) (e - 1) (by omega) (by omega) (by omega) ?_
      rw [Nat.pow_succ]
      omega

/-- Taking trailing zeros off leaves the number, and leaves a digit. -/
theorem strip_found {units : Nat} : ∀ (fuel : Nat) (d : Decimal), Found units d →
    Found units (strip fuel d) := by
  intro fuel
  induction fuel with
  | zero => exact fun d h => h
  | succ fuel ih =>
    intro d h
    rw [strip]
    split
    · next hten =>
      -- a trailing zero that moves into the exponent leaves the value as it is
      have hdigits : d.digits = d.digits / 10 * 10 := by omega
      have hvalue : Decimal.value ⟨d.digits / 10, d.exponent + 1⟩ = d.value := by
        rw [Decimal.value, Decimal.value, zpow_add_one₀ (by norm_num), ← mul_assoc, mul_right_comm]
        congr 1
        rw [hdigits]
        push_cast
        congr 2
        omega
      have hexponent := h.exponent
      exact ih _ ⟨by simp only; omega, Nat.le_trans (Nat.div_le_self _ _) h.digits, by simp only; omega,
        hvalue ▸ h.value⟩
    · exact h

/-- **The shortest decimal** of a magnitude has at most eighteen digits, and is no higher than what is
rounded to it. -/
theorem ofUnits_found {units : Nat} (h : units ≠ 0) : Found units (ofUnits units) := by
  obtain ⟨hone, hten⟩ := below_leading h
  have hlow := le_leading units
  exact strip_found 20 _ (search_found h 17 0 (leading units) rfl (by omega) hone hten)

end Shortest

end Stowage
