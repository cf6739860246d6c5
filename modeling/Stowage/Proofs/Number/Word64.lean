import Stowage.Number.Word64
import Stowage.Proofs.Json.Number
/-!
# Stowage — 64-bit numbers read back

The decimal digits of a number below 2^64 are read as that number: `read_toString`. The reader takes
the digits from the left and `Nat.toDigits` makes them from the right, so the step between them is
`digits_append`.
-/

namespace Stowage.Word64

/-- Digits are read one part after the other. -/
theorem digits_append {n m : Nat} {cs : List Char} (h : digits n cs = .ok m) (ds : List Char) :
    digits n (cs ++ ds) = digits m ds := by
  induction cs generalizing n with
  | nil =>
    cases h
    rfl
  | cons c cs ih =>
    rw [digits] at h
    rw [List.cons_append, digits]
    split at h
    · cases h
    · next hdigit =>
      split at h
      · next hfit =>
        rw [if_neg hdigit, if_pos hfit]
        exact ih h
      · cases h

/-- One more digit goes behind what has been read. -/
theorem digits_digitChar {n d : Nat} (hd : d < 10) (hfit : n * 10 + d < limit) :
    digits n [d.digitChar] = .ok (n * 10 + d) := by
  have hdigit : ∀ d, d < 10 → d.digitChar.isDigit = true ∧ d.digitChar.toNat - 48 = d := by decide
  obtain ⟨hisDigit, hvalue⟩ := hdigit d hd
  rw [digits, if_neg (not_not_intro hisDigit), hvalue, if_pos hfit, digits]

/-- Induction along the digits, the last one first. -/
theorem digits_toDigits (n : Nat) (h : n < limit) : digits 0 (Nat.toDigits 10 n) = .ok n := by
  induction n using Json.digit_induction with
  | single n hn =>
    have hone := digits_digitChar (n := 0) hn (by omega)
    rw [Nat.zero_mul, Nat.zero_add] at hone
    rw [Nat.toDigits_of_lt_base hn, hone]
  | more n hn ih =>
    have hlast : n % 10 < 10 := Nat.mod_lt n (by decide)
    have hwhole : n / 10 * 10 + n % 10 = n := Nat.div_add_mod' n 10
    rw [Nat.toDigits_of_base_le (by decide) hn, digits_append (ih (by omega)),
      digits_digitChar hlast (by omega), hwhole]

/-- A number is written with digits. -/
theorem isDigit_of_mem_toString {n : Nat} {c : Char} (h : c ∈ (toString n).toList) :
    c.isDigit = true := by
  rw [Nat.toString_eq_repr, Nat.toList_repr] at h
  exact Nat.isDigit_of_mem_toDigits (by decide) (by decide) h

/-- **A number is read back from its digits.** There is at least one digit, and a plus sign is none. -/
theorem read_toString {n : Nat} (h : n < limit) : read (toString n) = .ok n := by
  have hdigits := digits_toDigits n h
  have hall : ∀ c ∈ Nat.toDigits 10 n, c.isDigit = true := fun c hc =>
    Nat.isDigit_of_mem_toDigits (by decide) (by decide) hc
  rw [read, Nat.toString_eq_repr, Nat.toList_repr]
  cases hcs : Nat.toDigits 10 n with
  | nil => exact absurd hcs Nat.toDigits_ne_nil
  | cons c cs =>
    rw [hcs] at hdigits hall
    have hplus : c ≠ '+' := by
      rintro rfl
      exact absurd (hall '+' (List.mem_cons_self ..)) (by decide)
    split
    · next heq => cases heq
    · next heq => exact absurd (List.cons.inj heq).1 hplus
    · next heq => exact absurd (List.cons.inj heq).1 hplus
    · next heq => rw [hdigits]

end Stowage.Word64
