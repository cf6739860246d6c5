import Mathlib.Tactic.Common
import Mathlib.Tactic.Linarith
import Stowage.Number.Binary64
/-!
# Stowage — rounded magnitudes

Rounding gives a magnitude with 53 significant bits (`spacing_dvd_round`), at most half a spacing from what
is rounded (`round_mul_le`, `le_round_mul`). Of large numbers that is a part in 2^53 (`round_mul_le_of_le`).
-/

namespace Stowage.Binary64

/-- The spacing is the power of two that leaves 53 bits of a magnitude. -/
theorem spacing_eq (units : Nat) : spacing units = 2 ^ (units.log2 + 1 - 53) := Nat.one_shiftLeft _

theorem spacing_pos (units : Nat) : 0 < spacing units := by
  rw [spacing_eq]
  exact Nat.two_pow_pos _

theorem one_pos : 0 < one := by decide

theorem spacing_le {units : Nat} (h : units ≠ 0) : spacing units ≤ units := by
  rw [spacing_eq]
  exact Nat.le_trans (Nat.pow_le_pow_right (by decide) (by omega)) (Nat.log2_self_le h)

/-- From 2^52 on, the spacing is a small part of a magnitude. -/
theorem spacing_mul_le {units : Nat} (h : 2 ^ 52 ≤ units) : spacing units * 2 ^ 52 ≤ units := by
  have hne : units ≠ 0 := by omega
  have hlog : 52 ≤ units.log2 := (Nat.le_log2 hne).mpr h
  rw [spacing_eq, ← Nat.pow_add]
  exact Nat.le_trans (Nat.pow_le_pow_right (by decide) (by omega)) (Nat.log2_self_le hne)

/-- A magnitude has at most 53 bits above its spacing. -/
theorem lt_spacing_mul (units : Nat) : units < spacing units * 2 ^ 53 := by
  rw [spacing_eq, ← Nat.pow_add]
  exact Nat.lt_of_lt_of_le Nat.lt_log2_self (Nat.pow_le_pow_right (by decide) (by omega))

/-- Fifty-three bits, anywhere, are as many as are kept. -/
theorem spacing_dvd {m : Nat} (h : m ≤ 2 ^ 53) (k : Nat) : spacing (m * 2 ^ k) ∣ m * 2 ^ k := by
  rw [spacing_eq]
  by_cases hzero : m = 0
  · rw [hzero, Nat.zero_mul]
    exact Nat.dvd_zero _
  · by_cases hlt : m < 2 ^ 53
    · have hlog : (m * 2 ^ k).log2 < 53 + k := by
        rw [Nat.log2_lt (Nat.mul_ne_zero hzero (Nat.two_pow_pos k).ne'), Nat.pow_add]
        exact Nat.mul_lt_mul_of_pos_right hlt (Nat.two_pow_pos k)
      exact Nat.dvd_mul_left_of_dvd (Nat.pow_dvd_pow 2 (by omega)) m
    · have hm : m = 2 ^ 53 := by omega
      rw [hm, ← Nat.pow_add, Nat.log2_two_pow]
      exact Nat.pow_dvd_pow 2 (by omega)

section

variable {num den : Nat}

/-- Rounding exceeds a quotient by a half at most. -/
theorem roundHalfEven_le (num den : Nat) : 2 * (roundHalfEven num den * den) ≤ 2 * num + den := by
  have hsplit := Nat.div_add_mod num den
  rw [Nat.mul_comm] at hsplit
  simp only [roundHalfEven]
  split
  · omega
  · split
    · rw [Nat.add_mul, Nat.one_mul]
      omega
    · have hone : num / den % 2 * den ≤ 1 * den :=
        Nat.mul_le_mul_right den (Nat.le_of_lt_succ (Nat.mod_lt _ (by decide)))
      rw [Nat.add_mul]
      omega

/-- Rounding falls short of a quotient by a half at most. -/
theorem le_roundHalfEven (hden : 0 < den) :
    2 * num ≤ 2 * (roundHalfEven num den * den) + den := by
  have hsplit := Nat.div_add_mod num den
  have hlt := Nat.mod_lt num hden
  rw [Nat.mul_comm] at hsplit
  simp only [roundHalfEven]
  split
  · omega
  · split
    · rw [Nat.add_mul, Nat.one_mul]
      omega
    · rw [Nat.add_mul]
      omega

/-- Rounding goes at most one above the whole part. -/
theorem roundHalfEven_le_succ (num den : Nat) : roundHalfEven num den ≤ num / den + 1 := by
  simp only [roundHalfEven]
  split
  · exact Nat.le_succ _
  · split
    · exact Nat.le_refl _
    · omega

/-- What is rounded is exceeded by half a spacing at most. -/
theorem round_mul_le (num den : Nat) :
    2 * (round num den * den) ≤ 2 * num + den * spacing (num / den) := by
  rw [round, Nat.mul_assoc, Nat.mul_comm (spacing _) den]
  exact roundHalfEven_le num _

/-- What is rounded exceeds its rounding by half a spacing at most. -/
theorem le_round_mul (num : Nat) {den : Nat} (hden : 0 < den) :
    2 * num ≤ 2 * (round num den * den) + den * spacing (num / den) := by
  rw [round, Nat.mul_assoc, Nat.mul_comm (spacing _) den]
  exact le_roundHalfEven (Nat.mul_pos hden (spacing_pos _))

/-- For a large number, a spacing is a part in 2^52 of it. -/
theorem den_mul_spacing_le (h : 2 ^ 52 ≤ num / den) :
    den * spacing (num / den) * 2 ^ 52 ≤ num := by
  rw [Nat.mul_assoc]
  exact Nat.le_trans (Nat.mul_le_mul_left den (spacing_mul_le h)) (Nat.mul_div_le num den)

/-- Rounding a large number exceeds it by a part in 2^53 at most. -/
theorem round_mul_le_of_le (h : 2 ^ 52 ≤ num / den) :
    2 ^ 53 * (round num den * den) ≤ (2 ^ 53 + 1) * num := by
  have hround := round_mul_le num den
  have hspacing := den_mul_spacing_le h
  omega

/-- Rounding a large number leaves at least half of it. -/
theorem le_two_mul_round_mul (hden : 0 < den) (h : 2 ^ 52 ≤ num / den) :
    num ≤ 2 * (round num den * den) := by
  have hround := le_round_mul num hden
  have hspacing := den_mul_spacing_le h
  omega

/-- What is rounded is at most doubled, or was nothing. -/
theorem round_le (hden : 0 < den) {bound : Nat} (hbound : 0 < bound) (h : num ≤ bound * den) :
    round num den ≤ 2 * bound := by
  have hround := round_mul_le num den
  have hquot : num / den ≤ bound := Nat.div_le_of_le_mul (Nat.mul_comm den bound ▸ h)
  have hspacing : spacing (num / den) ≤ bound := by
    by_cases hzero : num / den = 0
    · rw [hzero]
      exact hbound
    · exact Nat.le_trans (spacing_le hzero) hquot
  have hstep := Nat.mul_le_mul_left den hspacing
  refine Nat.le_of_mul_le_mul_right ?_ hden
  nlinarith

/-- **Rounding** gives a magnitude that is kept as it is. -/
theorem spacing_dvd_round (num den : Nat) : spacing (round num den) ∣ round num den := by
  have hquot : num / (den * spacing (num / den)) < 2 ^ 53 := by
    rw [← Nat.div_div_eq_div_mul]
    exact Nat.div_lt_of_lt_mul (lt_spacing_mul _)
  have hle : roundHalfEven num (den * spacing (num / den)) ≤ 2 ^ 53 :=
    Nat.le_trans (roundHalfEven_le_succ num _) hquot
  have hround : round num den =
      roundHalfEven num (den * spacing (num / den)) * 2 ^ ((num / den).log2 + 1 - 53) := by
    rw [← spacing_eq]
    rfl
  rw [hround]
  exact spacing_dvd hle _

end

end Stowage.Binary64
