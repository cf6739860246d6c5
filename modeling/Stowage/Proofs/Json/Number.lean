import Stowage.Json.Printer
import Stowage.Json.Reader
import Stowage.Proofs.Text.Utf8
/-!
# Stowage — the digits of JSON numbers

A number is printed with its decimal digits, and digits are gathered one by one. Where a number ends, what
follows does not look like more of it (`Delimits`). `Number.IsWhole` collects the numbers that come back as
they are: whole numbers of the signed or unsigned 64-bit range, and minus zero, which is a binary64.
-/

namespace Stowage.Json

/-! ## Decimal digits

Printing divides by ten and reading multiplies by ten, so both go along the same digits, the last one
first. -/

/-- The decimal digits of a number, as bytes. -/
def digitBytes (n : Nat) : Bytes := (Nat.toDigits 10 n).map fun c => UInt8.ofNat c.toNat

/-- A number below ten has one digit. -/
theorem digitBytes_of_lt {n : Nat} (h : n < 10) :
    digitBytes n = [UInt8.ofNat (n + 48)] := by
  have hall : ∀ n, n < 10 →
      [n.digitChar].map (fun c => UInt8.ofNat c.toNat) = [UInt8.ofNat (n + 48)] := by decide
  rw [digitBytes, Nat.toDigits_of_lt_base h]
  exact hall n h

/-- The last digit of a number is its remainder. -/
theorem digitBytes_of_le {n : Nat} (h : 10 ≤ n) :
    digitBytes n = digitBytes (n / 10) ++ [UInt8.ofNat (n % 10 + 48)] := by
  have hlast := digitBytes_of_lt (Nat.mod_lt n (by decide : 0 < 10))
  rw [digitBytes, Nat.toDigits_of_lt_base (Nat.mod_lt n (by decide))] at hlast
  rw [digitBytes, Nat.toDigits_of_base_le (by decide) h, List.map_append, hlast]
  rfl

/-- Induction along the decimal digits, the last one first. -/
theorem digit_induction {motive : Nat → Prop} (single : ∀ n, n < 10 → motive n)
    (more : ∀ n, 10 ≤ n → motive (n / 10) → motive n) (n : Nat) : motive n := by
  induction n using Nat.strongRecOn with
  | _ n ih =>
    by_cases h : n < 10
    · exact single n h
    · exact more n (by omega) (ih (n / 10) (by omega))

/-- Digits are written as one byte each. -/
theorem encode_digits {cs : List Char} (h : ∀ c ∈ cs, c.isDigit = true) :
    Utf8.encode cs = cs.map fun c => UInt8.ofNat c.toNat := by
  induction cs with
  | nil => rfl
  | cons c cs ih =>
    have hdigit := h c (List.mem_cons_self ..)
    simp only [Char.isDigit, Bool.and_eq_true, decide_eq_true_eq] at hdigit
    have hle : c.toNat ≤ 57 := hdigit.2
    rw [Utf8.encode_cons, Utf8.encodeChar_ascii (by omega),
      ih fun d hd => h d (List.mem_cons_of_mem _ hd)]
    rfl

theorem isDigit_of_mem_toDigits {n : Nat} : ∀ c ∈ Nat.toDigits 10 n, c.isDigit = true :=
  fun _ hc => Nat.isDigit_of_mem_toDigits (by decide) (by decide) hc

/-- The text of a number is its decimal digits. -/
theorem utf8_toString (n : Nat) : utf8 (toString n) = digitBytes n := by
  rw [utf8, Nat.toString_eq_repr, Nat.toList_repr, digitBytes, encode_digits isDigit_of_mem_toDigits]

theorem utf8_append (s t : String) : utf8 (s ++ t) = utf8 s ++ utf8 t := by
  rw [utf8, String.toList_append, Utf8.encode_append]
  rfl

/-- A minus sign stands in front of the digits of a number below zero. -/
theorem utf8_toString_int (i : Int) :
    utf8 (toString i) = if 0 ≤ i then digitBytes i.toNat else 45 :: digitBytes (-i).toNat := by
  have htext : toString i = i.repr := rfl
  rw [htext, Int.repr_eq_if]
  split
  · rw [← Nat.toString_eq_repr, utf8_toString]
  · rw [utf8_append, ← Nat.toString_eq_repr, utf8_toString]
    rfl

theorem ne_of_isDigit {b c : UInt8} (hb : isDigit b = true) (hc : isDigit c = false) : b ≠ c := by
  rintro rfl
  rw [hb] at hc
  cases hc

theorem isBlank_of_isDigit {b : UInt8} (hb : isDigit b = true) : isBlank b = false := by
  simp only [isBlank, decide_eq_false_iff_not]
  rintro (rfl | rfl | rfl | rfl) <;> exact absurd hb (by decide)

theorem isDigit_ofNat {d : Nat} (h : d < 10) : isDigit (UInt8.ofNat (d + 48)) = true := by
  have hall : ∀ d, d < 10 → isDigit (UInt8.ofNat (d + 48)) = true := by decide
  exact hall d h

theorem digitValue_ofNat {d : Nat} (h : d < 10) : digitValue (UInt8.ofNat (d + 48)) = d := by
  rw [digitValue, Utf8.toNat_ofNat (by omega), Nat.add_sub_cancel]

/-- A digit is gathered as long as the number stays within its bound. -/
theorem gather_digit {bound value d : Nat} (count : Nat) (hd : d < 10)
    (hbound : value * 10 + d < bound) (rest : Bytes) :
    gather bound value count (UInt8.ofNat (d + 48) :: rest) =
      gather bound (value * 10 + d) (count + 1) rest := by
  rw [gather, digitValue_ofNat hd, if_pos ⟨isDigit_ofNat hd, hbound⟩]

/-- Where no digit comes next, gathering stops. -/
theorem gather_stop {bound value count : Nat} {rest : Bytes} (h : startsDigit rest = false) :
    gather bound value count rest = ⟨value, count, rest⟩ := by
  cases rest with
  | nil => rfl
  | cons b rest =>
    have hdigit : isDigit b = false := h
    rw [gather, if_neg (by simp [hdigit])]

/-- The first digit of a number is zero only if there is no other. -/
theorem digitBytes_eq_cons (n : Nat) :
    ∃ d more, d < 10 ∧ digitBytes n = UInt8.ofNat (d + 48) :: more ∧ (d = 0 → n = 0) ∧
      (n = 0 → more = []) := by
  induction n using digit_induction with
  | single n hn => exact ⟨n, [], hn, digitBytes_of_lt hn, id, fun _ => rfl⟩
  | more n hn ih =>
    obtain ⟨d, more, hd, heq, hzero, -⟩ := ih
    refine ⟨d, more ++ [UInt8.ofNat (n % 10 + 48)], hd, ?_, fun h => ?_, fun h => ?_⟩
    · rw [digitBytes_of_le hn, heq, List.cons_append]
    · have := hzero h
      omega
    · omega

/-! ## What follows a number

A number has no end mark of its own. It ends where a comma, a bracket, a brace or nothing follows, and
none of these goes on with it. -/

/-- `Delimits rest`: a number that ends before `rest` has no more digits, fraction or exponent. -/
structure Delimits (rest : Bytes) : Prop where
  digit : startsDigit rest = false
  exponent : startsExponent rest = false
  point : ∀ more, rest ≠ 46 :: more

theorem Delimits.nil : Delimits [] := ⟨rfl, rfl, fun _ h => by cases h⟩

theorem Delimits.cons {b : UInt8} (hdigit : isDigit b = false) (hb : b ≠ 101 ∧ b ≠ 69 ∧ b ≠ 46)
    (rest : Bytes) : Delimits (b :: rest) := by
  refine ⟨hdigit, ?_, fun more h => ?_⟩
  · simp [startsExponent, hb.1, hb.2.1]
  · cases h
    exact hb.2.2 rfl

theorem Delimits.comma (rest : Bytes) : Delimits (44 :: rest) := .cons (by decide) (by decide) rest

theorem Delimits.bracket (rest : Bytes) : Delimits (93 :: rest) := .cons (by decide) (by decide) rest

theorem Delimits.brace (rest : Bytes) : Delimits (125 :: rest) := .cons (by decide) (by decide) rest

/-- A whole part that is all of a number. -/
theorem afterWhole_delimits (negative : Bool) (significand : Nat) {rest : Bytes}
    (h : Delimits rest) :
    afterWhole negative significand rest =
      if !negative then .ok (.int significand, rest)
      else if 1 ≤ significand ∧ significand ≤ 1 <<< 63 then .ok (.int (-significand), rest)
      else .ok (.real ⟨true, Binary64.ofNat significand⟩, rest) := by
  unfold afterWhole
  split
  · next more => exact absurd rfl (h.point more)
  · rw [if_neg (by rw [h.exponent]; decide)]

/-! ## Whole numbers -/

theorem ofNat_zero : Binary64.ofNat 0 = 0 := by
  rw [Binary64.ofNat, Binary64.round, Nat.zero_mul, Nat.zero_div]
  simp [Binary64.roundHalfEven]

/-- The numbers that are spelled as whole numbers of the signed or unsigned 64-bit range. Minus zero is
one of them, and is kept as a binary64. -/
inductive Number.IsWhole : Number → Prop where
  | int (i : Int) (hlow : -wordLimit ≤ 2 * i) (hhigh : i < wordLimit) : IsWhole (.int i)
  | minusZero : IsWhole (.real ⟨true, 0⟩)

theorem Number.isWhole_natural {n : Nat} (hn : n < wordLimit) : Number.IsWhole (.int n) := by
  have hhigh : (n : Int) < wordLimit := Int.ofNat_lt.mpr hn
  exact .int n (by omega) hhigh

end Stowage.Json
