import Stowage.Proofs.Json.Extent
import Stowage.Proofs.Number.Binary64
/-!
# Stowage — numbers that can be read

What a numeral is read as is a whole number of 64 bits or a finite binary64 number with no more bits than
are kept (`Numeral.readable`). The significand is below 2^64, and scaling it down loses less than it
could gain by roundings, so only scaling it up can leave the finite range, and that is checked.
-/

namespace Stowage

namespace Binary64

theorem kept_zero : spacing 0 ∣ 0 := Nat.dvd_zero _

/-- Rounding at most doubles a number. -/
theorem ofNat_le {n : Nat} (h : n ≠ 0) : ofNat n ≤ 2 * (n * one) :=
  round_le (by decide) (Nat.mul_pos (Nat.pos_of_ne_zero h) one_pos) (Nat.le_of_eq (Nat.mul_one _).symm)

theorem le_ofNat_units {n : Nat} (h : n ≠ 0) : 2 ^ 52 ≤ n * one / 1 := by
  have hone : 2 ^ 52 ≤ one := by decide
  rw [Nat.div_one]
  exact Nat.le_trans hone (Nat.le_mul_of_pos_left _ (Nat.pos_of_ne_zero h))

/-- Natural numbers are not rounded below a half. -/
theorem one_le_two_mul_ofNat {n : Nat} (h : n ≠ 0) : one ≤ 2 * ofNat n := by
  have hround := le_two_mul_round_mul (by decide) (le_ofNat_units h)
  rw [Nat.mul_one] at hround
  exact Nat.le_trans (Nat.le_mul_of_pos_left _ (Nat.pos_of_ne_zero h)) hround

theorem one_le_two_mul_tenPow (k : Nat) : one ≤ 2 * tenPow k :=
  one_le_two_mul_ofNat (Nat.pow_pos (by decide)).ne'

/-- Dividing by a power of ten gains no more than roundings do. -/
theorem div_tenPow_le {units : Nat} (h : units ≠ 0) (k : Nat) :
    div units (tenPow k) ≤ 4 * units := by
  have hten := one_le_two_mul_tenPow k
  have hpos := one_pos
  have hle : units * one ≤ 2 * units * tenPow k := by
    rw [Nat.mul_comm 2, Nat.mul_assoc]
    exact Nat.mul_le_mul_left units hten
  have hround := round_le (by omega) (by omega) hle
  rw [div]
  omega

end Binary64

namespace Json

open Binary64

/-- A number that a reader can give: a whole number in its range, or a binary64 number that is finite and
has no more bits than are kept. -/
inductive Number.Readable : Number → Prop where
  | whole (n : Number) (h : n.IsWhole) : Readable n
  | real (x : Binary64) (hfinite : x.units < limit) (hkept : spacing x.units ∣ x.units) :
      Readable (.real x)

theorem Number.Readable.zero (negative : Bool) : Number.Readable (.real ⟨negative, 0⟩) :=
  .real ⟨negative, 0⟩ (show 0 < limit by decide) kept_zero

/-- Scaling up is one rounded product. -/
theorem scaleOnto_up (fuel units k : Nat) : scaleOnto fuel units (.ofNat k) =
    if units = 0 then some 0
    else if 308 < k then none
    else if mul units (tenPow k) < limit then some (mul units (tenPow k)) else none := by
  cases fuel <;> rfl

/-- A product that was scaled up is finite and rounded. -/
theorem scaleOnto_up_finite {fuel units k result : Nat}
    (h : scaleOnto fuel units (.ofNat k) = some result) : result < limit ∧ spacing result ∣ result := by
  rw [scaleOnto_up] at h
  split at h
  · cases h
    exact ⟨by decide, kept_zero⟩
  · split at h
    · cases h
    · split at h
      · next hlimit =>
        cases h
        exact ⟨hlimit, spacing_dvd_round _ _⟩
      · cases h

/-- Scaling stays in the finite range. Induction on the divisions, each of which quadruples at most. -/
theorem scaleOnto_finite {fuel units result : Nat} {exponent : Int}
    (hsmall : units * 4 ^ fuel < limit) (h : scaleOnto fuel units exponent = some result) :
    result < limit ∧ spacing result ∣ result := by
  induction fuel generalizing units exponent with
  | zero =>
    cases exponent with
    | ofNat k => exact scaleOnto_up_finite h
    | negSucc k =>
      cases h
      exact ⟨by decide, kept_zero⟩
  | succ fuel ih =>
    cases exponent with
    | ofNat k => exact scaleOnto_up_finite h
    | negSucc k =>
      rw [scaleOnto] at h
      split at h
      · cases h
        exact ⟨by decide, kept_zero⟩
      · next hzero =>
        -- each division gains at most a factor of four, which the bound leaves room for
        have hstep : ∀ k, div units (tenPow k) * 4 ^ fuel < limit := by
          intro k
          have hle := Nat.mul_le_mul_right (4 ^ fuel) (div_tenPow_le hzero k)
          rw [Nat.pow_succ] at hsmall
          rw [Nat.mul_assoc, Nat.mul_left_comm, Nat.mul_comm 4] at hle
          exact Nat.lt_of_le_of_lt hle hsmall
        split at h
        · cases h
          have hone := Nat.pow_pos (n := fuel) (show 0 < 4 by decide)
          exact ⟨Nat.lt_of_le_of_lt (Nat.le_mul_of_pos_right _ hone) (hstep (k + 1)),
            spacing_dvd_round _ _⟩
        · exact ih (hstep 308) h

/-- Whatever a significand of 64 bits is scaled to is finite and rounded. -/
theorem scale_finite {significand result : Nat} {exponent : Int} (hlimit : significand < wordLimit)
    (h : scale significand exponent = some result) : result < limit ∧ spacing result ∣ result := by
  refine scaleOnto_finite ?_ h
  by_cases hzero : significand = 0
  · rw [hzero, ofNat_zero, Nat.zero_mul]
    decide
  · calc ofNat significand * 4 ^ 4
        ≤ 2 * (significand * one) * 4 ^ 4 := Nat.mul_le_mul_right _ (ofNat_le hzero)
      _ ≤ 2 * (wordLimit * one) * 4 ^ 4 :=
        Nat.mul_le_mul_right _ (Nat.mul_le_mul_left _ (Nat.mul_le_mul_right _ hlimit.le))
      _ < limit := by decide +kernel

theorem gather_lt {bound : Nat} (unread : Bytes) :
    ∀ {value : Nat} (count : Nat), value < bound → (gather bound value count unread).value < bound := by
  induction unread with
  | nil => exact fun _ h => h
  | cons b unread ih =>
    intro value count h
    rw [gather]
    split
    · next hmore => exact ih (count + 1) hmore.2
    · exact h

section

variable {negative : Bool} {significand : Nat} {exponent : Int} {power : Option Power} {x : Number}

theorem readable_scaled (hlimit : significand < wordLimit)
    (h : scaled negative significand exponent = some x) : x.Readable := by
  obtain ⟨units, hscale, rfl⟩ := Option.map_eq_some_iff.mp h
  obtain ⟨hfinite, hkept⟩ := scale_finite hlimit hscale
  exact .real _ hfinite hkept

theorem readable_scaledBy (hlimit : significand < wordLimit)
    (h : scaledBy negative significand exponent power = some x) : x.Readable := by
  cases power with
  | none => exact readable_scaled hlimit h
  | some p =>
    simp only [scaledBy] at h
    split at h
    · exact readable_scaled hlimit h
    · split at h
      · cases h
      · cases h
        exact .zero negative

/-- A whole number that was gathered is a number that can be read. -/
theorem readable_ofWhole (hlimit : significand < wordLimit) : (ofWhole negative significand).Readable := by
  rw [ofWhole]
  split
  · exact .whole _ (Number.isWhole_natural hlimit)
  · split
    · next hrange =>
      have hword : wordLimit = 2 * (1 <<< 63) := by decide
      exact .whole _ (.int _ (by omega) (by omega))
    · refine .real _ ?_ (spacing_dvd_round _ _)
      by_cases hzero : significand = 0
      · rw [hzero, ofNat_zero]
        decide
      · calc ofNat significand
            ≤ 2 * (significand * one) := ofNat_le hzero
          _ ≤ 2 * (wordLimit * one) := Nat.mul_le_mul_left _ (Nat.mul_le_mul_right _ hlimit.le)
          _ < limit := by decide +kernel

end

/-- **What a numeral is read as** is a number that can be read. -/
theorem Numeral.readable {n : Numeral} {x : Number} (h : n.number? = some x) : x.Readable := by
  have hwhole := gather_lt n.whole 0 (show 0 < wordLimit by decide)
  simp only [number?] at h
  split at h
  · cases h
    exact readable_ofWhole hwhole
  · exact readable_scaledBy (gather_lt n.places 0 hwhole) h

end Json

end Stowage
