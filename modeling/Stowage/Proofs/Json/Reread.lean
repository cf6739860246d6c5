import Stowage.Proofs.Json.Printed
import Stowage.Proofs.Json.Range
/-!
# Stowage — printed numbers that are read again

Every number that can be read is printed as a numeral that can be read (`Number.Readable.reread`), if
perhaps as a neighbour. Only a number near the upper end of the finite range could be rounded out of it.
It is not: below the three greatest magnitudes three roundings are not enough for that (`product_lt`), and
those three are looked at (`scale_top`).
-/

namespace Stowage.Json

open Binary64

/-! ## Scaling printed digits

Up to three roundings lie between a magnitude and what its digits are scaled to: of the digits, of the
power of ten, and of their product. In most of the range they cannot reach the upper end; near it few
magnitudes are left. -/

/-- Scaling down always gives a number. Induction on the divisions. -/
theorem scaleOnto_down (fuel units k : Nat) : (scaleOnto fuel units (.negSucc k)).isSome = true := by
  induction fuel generalizing units k with
  | zero => rfl
  | succ fuel ih =>
    rw [scaleOnto]
    split
    · rfl
    · split
      · rfl
      · next hk =>
        obtain ⟨less, hless⟩ : ∃ less, Int.negSucc k + 308 = Int.negSucc less := ⟨k - 308, by omega⟩
        rw [hless]
        exact ih _ less

/-- A negative power of ten never leads out of the finite range. -/
theorem scale_down {significand : Nat} {exponent : Int} (h : exponent < 0) :
    (scale significand exponent).isSome = true := by
  obtain ⟨k, rfl⟩ := Int.eq_negSucc_of_lt_zero h
  exact scaleOnto_down 4 _ k

/-- The spacing of the greatest magnitudes. -/
def lastStep : Nat := 1 <<< 2045

theorem limit_eq : limit = lastStep * 2 ^ 53 := by decide +kernel

/-- A magnitude below 2^(bits + 53) is spaced by 2^bits at most. -/
theorem spacing_le_of_lt {units bits : Nat} (h : units < 1 <<< (bits + 53)) :
    spacing units ≤ 1 <<< bits := by
  rw [Nat.one_shiftLeft] at h
  rw [spacing_eq, Nat.one_shiftLeft]
  refine Nat.pow_le_pow_right (by decide) ?_
  by_cases hzero : units = 0
  · subst hzero
    simp
  · have hlog := (Nat.log2_lt hzero).mpr h
    omega

/-- A magnitude from 2^(bits + 52) on is spaced by 2^bits at least. -/
theorem le_spacing_of_le {units bits : Nat} (h : 1 <<< (bits + 52) ≤ units) :
    1 <<< bits ≤ spacing units := by
  rw [Nat.one_shiftLeft] at h
  rw [spacing_eq, Nat.one_shiftLeft]
  have hpos := Nat.two_pow_pos (bits + 52)
  have hlog := (Nat.le_log2 (n := units) (by omega)).mpr h
  exact Nat.pow_le_pow_right (by decide) (by omega)

/-- At the upper end of the finite range only multiples of the last step are kept. -/
theorem eq_top {units : Nat} (hfinite : units < limit) (hkept : spacing units ∣ units)
    (htop : limit < units + 4 * lastStep) : ∃ j < 3, units = limit - (j + 1) * lastStep := by
  have hstep : spacing units = lastStep := by
    have hhalf : 1 <<< (2045 + 52) + 4 * lastStep ≤ limit := by
      rw [limit_eq, Nat.shiftLeft_add, Nat.mul_comm 4]
      show lastStep <<< 52 + _ ≤ _
      rw [Nat.shiftLeft_eq, ← Nat.mul_add]
      exact Nat.mul_le_mul_left _ (by decide)
    have hle := Nat.lt_of_add_lt_add_right (Nat.lt_of_le_of_lt hhalf htop)
    exact Nat.le_antisymm (spacing_le_of_lt hfinite) (le_spacing_of_le hle.le)
  obtain ⟨q, hq⟩ := hstep ▸ hkept
  have hpos : 0 < lastStep := by decide
  rw [hq, limit_eq] at hfinite htop
  rw [Nat.mul_comm 4, ← Nat.mul_add] at htop
  have hlow := Nat.lt_of_mul_lt_mul_left htop
  have hhigh := Nat.lt_of_mul_lt_mul_left hfinite
  -- the multiples of the last step, counted from the end of the range
  refine ⟨2 ^ 53 - 1 - q, by omega, ?_⟩
  have hquot : q = 2 ^ 53 - (2 ^ 53 - 1 - q + 1) := by omega
  rw [hq, limit_eq, Nat.mul_comm _ lastStep, ← Nat.mul_sub, ← hquot]

/-- The three greatest magnitudes, as they are printed. -/
theorem ofUnits_top : ∀ j < 3, Shortest.ofUnits (limit - (j + 1) * lastStep) =
    ⟨17976931348623157 - 2 * j, 292⟩ := by
  decide +kernel

/-- The digits of the three greatest magnitudes can be scaled. -/
theorem scale_top : ∀ j < 3, (scale (17976931348623157 - 2 * j) 292).isSome = true := by
  decide +kernel

section

variable {digits power units : Nat}

/-- Rounding a natural number gains one part in 2^53 at most. -/
theorem ofNat_precise (h : digits ≠ 0) : 2 ^ 53 * ofNat digits ≤ (2 ^ 53 + 1) * (digits * one) := by
  have hround := round_mul_le_of_le (le_ofNat_units h)
  rwa [Nat.mul_one] at hround

/-- Rounding a product gains one part in 2^53 at most. -/
theorem mul_precise (hdigits : digits ≠ 0) (hpower : power ≠ 0) :
    2 ^ 53 * (mul (ofNat digits) (ofNat power) * one) ≤
      (2 ^ 53 + 1) * (ofNat digits * ofNat power) := by
  refine round_mul_le_of_le ?_
  have hsquare := Nat.mul_le_mul (one_le_two_mul_ofNat hdigits) (one_le_two_mul_ofNat hpower)
  have hone : 2 ^ 54 * one ≤ one * one := Nat.mul_le_mul_right _ (by decide)
  rw [Nat.mul_mul_mul_comm] at hsquare
  rw [Nat.le_div_iff_mul_le Binary64.one_pos]
  omega

/-- Three roundings add at most three parts in 2^53, and a little. -/
theorem product_precise (hdigits : digits ≠ 0) (hpower : power ≠ 0) :
    2 ^ 159 * mul (ofNat digits) (ofNat power) ≤ (2 ^ 53 + 1) ^ 3 * (digits * power * one) := by
  have hfactors := Nat.mul_le_mul (ofNat_precise hdigits) (ofNat_precise hpower)
  have hproduct := mul_precise hdigits hpower
  refine Nat.le_of_mul_le_mul_right ?_ Binary64.one_pos
  calc 2 ^ 159 * mul (ofNat digits) (ofNat power) * one
      = 2 ^ 106 * (2 ^ 53 * (mul (ofNat digits) (ofNat power) * one)) := by ring
    _ ≤ 2 ^ 106 * ((2 ^ 53 + 1) * (ofNat digits * ofNat power)) := Nat.mul_le_mul_left _ hproduct
    _ = (2 ^ 53 + 1) * (2 ^ 53 * ofNat digits * (2 ^ 53 * ofNat power)) := by ring
    _ ≤ (2 ^ 53 + 1) * ((2 ^ 53 + 1) * (digits * one) * ((2 ^ 53 + 1) * (power * one))) :=
      Nat.mul_le_mul_left _ hfactors
    _ = (2 ^ 53 + 1) ^ 3 * (digits * power * one) * one := by ring

/-- Away from the upper end, three roundings do not leave the finite range. -/
theorem product_lt (hdigits : digits ≠ 0) (hpower : power ≠ 0) (hroom : units + 4 * lastStep ≤ limit)
    (h : digits * power * (4 * one) ≤ (Shortest.basin units).high) :
    mul (ofNat digits) (ofNat power) < limit := by
  have hlimit := limit_eq
  have hpos : 0 < lastStep := by decide
  have hstep : spacing units ≤ lastStep := spacing_le_of_lt (by
    show units < limit
    omega)
  have hbasin : (Shortest.basin units).high = 4 * units + 2 * spacing units := rfl
  have hproduct := product_precise hdigits hpower
  rw [Nat.mul_left_comm] at h
  omega

/-- What is found of a decimal that counts whole numbers, in natural numbers. -/
theorem found_whole {d : Decimal} {k : Nat} (hfound : Shortest.Found units d)
    (hk : d.exponent = .ofNat k) :
    d.digits * Nat.pow 10 k * (4 * one) ≤ (Shortest.basin units).high := by
  have hvalue := hfound.value
  rw [Decimal.value, hk, Shortest.tenPow_natCast] at hvalue
  exact_mod_cast hvalue

/-- A finite magnitude is below a power of ten that is itself beyond the finite range. -/
theorem exponent_le {d : Decimal} {bound : Nat} (hbound : 6 * limit ≤ Nat.pow 10 (bound + 1) * (4 * one))
    (hfound : Shortest.Found units d) (h : units ≠ 0) (hfinite : units < limit) :
    d.exponent ≤ bound := by
  by_contra hlong
  obtain ⟨k, hk⟩ : ∃ k, d.exponent = .ofNat k := Int.eq_ofNat_of_zero_le (by omega)
  rw [hk, Int.ofNat_eq_natCast, Int.ofNat_le, not_le] at hlong
  have hwhole := found_whole hfound hk
  have hstep := spacing_le h
  have hbasin : (Shortest.basin units).high = 4 * units + 2 * spacing units := rfl
  have hpow : Nat.pow 10 (bound + 1) * (4 * one) ≤ d.digits * Nat.pow 10 k * (4 * one) :=
    Nat.mul_le_mul_right _ <| Nat.le_trans (Nat.pow_le_pow_right (by decide) hlong)
      (Nat.le_mul_of_pos_left _ (Nat.pos_of_ne_zero hfound.ne_zero))
  omega

/-- What is found for a finite magnitude has an exponent of 308 at most. -/
theorem exponent_le_308 {d : Decimal} (hfound : Shortest.Found units d) (h : units ≠ 0)
    (hfinite : units < limit) : d.exponent ≤ (308 : Nat) :=
  exponent_le (by decide +kernel) hfound h hfinite

/-- The digits of a finite magnitude can be scaled again. -/
theorem scale_ofUnits (h : units ≠ 0) (hfinite : units < limit) (hkept : spacing units ∣ units) :
    (scale (Shortest.ofUnits units).digits (Shortest.ofUnits units).exponent).isSome = true := by
  -- far enough from the end of the range roundings do not matter, and near it three magnitudes are
  -- left
  by_cases hroom : units + 4 * lastStep ≤ limit
  · have hfound := Shortest.ofUnits_found h
    generalize Shortest.ofUnits units = d at hfound
    have hle := exponent_le_308 hfound h hfinite
    cases hexponent : d.exponent with
    | negSucc k => exact scaleOnto_down 4 _ k
    | ofNat k =>
      rw [hexponent, Int.ofNat_eq_natCast, Int.ofNat_le] at hle
      have hten : Nat.pow 10 k ≠ 0 := (Nat.pow_pos (by decide)).ne'
      have hlt : mul (ofNat d.digits) (tenPow k) < limit :=
        product_lt hfound.ne_zero hten hroom (found_whole hfound hexponent)
      have hone := one_le_two_mul_ofNat hfound.ne_zero
      have hpos := Binary64.one_pos
      rw [scale, scaleOnto_up, if_neg (by omega), if_neg (by omega), if_pos hlt]
      rfl
  · obtain ⟨j, hj, rfl⟩ := eq_top hfinite hkept (Nat.lt_of_not_le hroom)
    rw [ofUnits_top j hj]
    exact scale_top j hj

end

/-! ## Numbers

What remains is to see that the printed digits are few enough to be gathered, so that scaling them is
what reading does. -/

theorem scaled_isSome {negative : Bool} {significand : Nat} {exponent : Int}
    (h : (scale significand exponent).isSome = true) : (scaled negative significand exponent).isSome = true := by
  rw [scaled, Option.isSome_map]
  exact h

/-- A number is below the power of ten that has as many zeros as the number has digits. -/
theorem lt_pow_length_digitBytes (n : Nat) : n < 10 ^ (digitBytes n).length := by
  rw [digitBytes, List.length_map]
  exact (Nat.length_toDigits_le_iff (by decide) Nat.length_toDigits_pos).mp (Nat.le_refl _)

/-- Where zeros in front of the point become digits, there are few. -/
theorem Numeral.digits_ofDecimal_lt (negative : Bool) {units : Nat} {d : Decimal}
    (h : Shortest.Found units d) : (ofDecimal layout negative d).digits < wordLimit := by
  have hword : 10 ^ 18 < wordLimit := by decide
  have hdigits := h.digits
  rcases ofDecimal_cases layout negative d with ⟨heq, -⟩ | ⟨hsign, hposition, heq, -⟩
  · omega
  · have hfit : (digitBytes d.digits).length + d.exponent.toNat ≤ 16 := by
      have hto : layout.positionalTo = 16 := rfl
      omega
    calc (ofDecimal layout negative d).digits
        = d.digits * 10 ^ (d.exponent.toNat + 1) := heq
      _ ≤ 10 ^ (digitBytes d.digits).length * 10 ^ (d.exponent.toNat + 1) :=
        Nat.mul_le_mul_right _ (lt_pow_length_digitBytes _).le
      _ = 10 ^ ((digitBytes d.digits).length + (d.exponent.toNat + 1)) := (Nat.pow_add ..).symm
      _ ≤ 10 ^ 17 := Nat.pow_le_pow_right (by decide) (by omega)
      _ < wordLimit := by decide

/-- The exponent that is printed counts from the first digit. -/
theorem Numeral.power_ofDecimal (layout : Layout) (negative : Bool) (d : Decimal) (p : Power)
    (h : (ofDecimal layout negative d).power = some p) :
    digitsOnto 0 p.digits = ((digitBytes d.digits).length + d.exponent - 1).natAbs := by
  simp only [ofDecimal] at h
  split at h
  · split at h
    · cases h
    · split at h <;> cases h
  · cases h
    exact digitsOnto_digitBytes _

/-- **Printed numbers are read again.** -/
theorem Number.Readable.reread {n : Number} (h : n.Readable) : n.numeral.number?.isSome = true := by
  cases h with
  | whole _ hwhole =>
    rw [hwhole.reread]
    rfl
  | real x hfinite hkept =>
    obtain ⟨negative, units⟩ := x
    by_cases hzero : units = 0
    · subst hzero
      rw [number?_zero]
      rfl
    -- a number that is not zero is printed as its shortest decimal
    have hfound := Shortest.ofUnits_found hzero
    have hscale := scale_ofUnits hzero hfinite hkept
    have hwell := wellFormed_numeral (.real ⟨negative, units⟩)
    have hnumeral : numeral (.real ⟨negative, units⟩) =
        .ofDecimal layout negative (Shortest.ofUnits units) := by
      rw [numeral, if_neg hzero]
    rw [hnumeral] at hwell ⊢
    rw [Numeral.number?_scaled hwell (Numeral.real_ofDecimal _ _ _)
      (Numeral.digits_ofDecimal_lt negative hfound) fun p hp => ?_]
    · refine scaled_isSome ?_
      -- its digits are scaled as they were found, or with a zero behind them that is scaled down
      -- again
      rcases Numeral.ofDecimal_cases layout negative (Shortest.ofUnits units) with
        ⟨hdigits, hexponent⟩ | ⟨-, -, -, hexponent⟩
      · rw [hdigits, hexponent]
        exact hscale
      · exact scale_down (by omega)
    · have hlength := length_digitBytes_le (by decide : 0 < 19)
        (Nat.lt_of_le_of_lt hfound.digits (by decide))
      have hlow := hfound.exponent
      have hhigh := exponent_le_308 hfound hzero hfinite
      rw [Numeral.power_ofDecimal _ _ _ p hp]
      omega

end Stowage.Json
