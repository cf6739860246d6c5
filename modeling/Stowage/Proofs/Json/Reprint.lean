import Stowage.Proofs.Json.Printing
/-!
# Stowage — numerals that are read and printed again

A value that is read and printed keeps everything but its numerals, each of which is read and printed by
itself (`printed_eq_reprinted`). A whole number of 64 bits still stands for the same number, any other
numeral only if it is the shortest decimal of the binary64 number that it is read as
(`Numeral.value_reprinted_iff`).
-/

namespace Stowage.Json

/-- A whole number of 64 bits: no point, no power, and in the range of the signed or the unsigned ones. -/
def Numeral.IsWord (n : Numeral) : Prop :=
  n.places = [] ∧ n.power = none ∧ n.digits < wordLimit ∧ (n.negative = true → n.digits ≤ 1 <<< 63)

/-- What a numeral becomes when it is read and printed again, if it is not out of range. -/
def Numeral.reprinted (n : Numeral) : Numeral := (n.number?.map Number.numeral).getD n

/-- A numeral that stands for the same number when it is read and printed again. -/
def Numeral.Kept (n : Numeral) : Prop :=
  n.IsWord ∨ ∃ x, n.number? = some (.real x) ∧ n.value = Number.printedValue (.real x)

section

variable {n : Numeral} {x : Number}

/-- A whole number of 64 bits, with its sign, is printed as what it stands for. -/
theorem printedValue_ofWhole {negative : Bool} {significand : Nat}
    (h : negative = true → significand ≤ 1 <<< 63) :
    (ofWhole negative significand).printedValue = (if negative then -1 else 1) * significand := by
  cases negative with
  | false => simp [ofWhole, Number.printedValue]
  | true =>
    by_cases hzero : significand = 0
    · simp [hzero, ofWhole, Number.printedValue, ofNat_zero]
    · have hrange : 1 ≤ significand ∧ significand ≤ 1 <<< 63 := ⟨Nat.pos_of_ne_zero hzero, h rfl⟩
      rw [ofWhole, if_neg (by decide), if_pos hrange]
      simp [Number.printedValue]

/-- A whole number of 64 bits is read as what it stands for. -/
theorem Numeral.IsWord.printedValue (hn : n.WellFormed) (h : n.IsWord) (hx : n.number? = some x) :
    x.printedValue = n.value := by
  obtain ⟨hplaces, hpower, hdigits, hsign⟩ := h
  have hexponent : n.exponent = 0 := by
    rw [exponent, hplaces, hpower]
    rfl
  rw [number?_whole hn hplaces hpower hdigits] at hx
  cases hx
  rw [printedValue_ofWhole hsign, value, hexponent, zpow_zero, mul_one]

/-- What is read as a whole number is one of 64 bits. -/
theorem Numeral.isWord_of_int (hn : n.WellFormed) {i : Int} (hx : n.number? = some (.int i)) :
    n.IsWord := by
  -- with places or a power it would be read as a binary64 number, and with too many digits as well
  by_cases hreal : n.places ≠ [] ∨ n.power ≠ none
  · obtain ⟨y, hy⟩ := real_of_number? hreal hx
    cases hy
  rw [not_or, not_not, not_not] at hreal
  obtain ⟨hplaces, hpower⟩ := hreal
  have hdigits : n.digits = digitsOnto 0 n.whole := by rw [digits, hplaces, List.append_nil]
  have hlimit := gather_lt n.whole 0 (show 0 < wordLimit by decide)
  simp only [number?] at hx
  split at hx
  · next hall =>
    rw [value_gather _ hn.whole 0 0 hall.2.2, ← hdigits] at hlimit hx
    refine ⟨hplaces, hpower, hlimit, fun hnegative => ?_⟩
    rw [hnegative] at hx
    simp only [ofWhole, Bool.not_true, Bool.false_eq_true, if_false] at hx
    split at hx
    · next hrange => exact hrange.2
    · cases hx
  · obtain ⟨y, hy⟩ := real_of_placed hx
    cases hy

/-- **Which numerals keep their value** when they are read and printed again. -/
theorem Numeral.value_reprinted_iff (hn : n.WellFormed) (hx : n.number? = some x) :
    n.reprinted.value = n.value ↔ n.Kept := by
  rw [reprinted, hx, Option.map_some, Option.getD_some, Number.value_numeral]
  constructor
  · intro h
    cases x with
    | int i => exact .inl (isWord_of_int hn hx)
    | real y => exact .inr ⟨y, hx, h.symm⟩
  · rintro (hword | ⟨y, hy, hvalue⟩)
    · exact hword.printedValue hn hx
    · cases hx.symm.trans hy
      exact hvalue.symm

/-- The greatest number of 64 bits is kept. The next one becomes 18446744073709552000. -/
example : (⟨false, utf8 "18446744073709551615", [], none⟩ : Numeral).reprinted.value =
    18446744073709551615 ∧
    (⟨false, utf8 "18446744073709551616", [], none⟩ : Numeral).reprinted.value =
      18446744073709552000 := by decide +kernel

end

/-! ## Trees

Numerals are looked at one by one, and everything else in a tree is printed as it was read. So a value
is kept exactly if its numerals are. -/

/-- Every numeral that is spelled is well-formed. -/
theorem Spells.wellFormed {whole : Bytes} {t : Tree Numeral} (h : Spells whole t) :
    ∀ n ∈ t.numbers, n.WellFormed := by
  obtain ⟨depth, rest, hspelled, -⟩ := h
  exact hspelled.wellFormed

section

variable {t : Tree Numeral} {v : Json}

/-- Every numeral of a tree that is read is one. -/
theorem exists_number (h : t.map Numeral.number? = (Tree.ofJson v).map some) :
    ∀ n ∈ t.numbers, ∃ x, n.number? = some x := by
  intro n hn
  have hmem : n.number? ∈ (t.map Numeral.number?).numbers := by
    rw [Tree.numbers_map]
    exact List.mem_map_of_mem hn
  rw [h, Tree.numbers_map] at hmem
  obtain ⟨x, -, hx⟩ := List.mem_map.mp hmem
  exact ⟨x, hx.symm⟩

/-- **What is printed** for a tree that was read is the tree, with every numeral read and printed again. -/
theorem printed_eq_reprinted (h : t.map Numeral.number? = (Tree.ofJson v).map some) :
    printed v = t.map Numeral.reprinted := by
  -- the numerals are all read, so what becomes of the others does not matter
  let other : Numeral := ⟨false, [48], [], none⟩
  have hsame : t.map Numeral.reprinted = t.map fun n => (n.number?.map Number.numeral).getD other := by
    refine (Tree.map_eq_map_iff _ _ _).mpr fun n hn => ?_
    obtain ⟨x, hx⟩ := exists_number h n hn
    rw [Numeral.reprinted, hx]
    rfl
  have hread := congrArg (Tree.map fun x : Option Number => (x.map Number.numeral).getD other) h
  rw [Tree.map_map, Tree.map_map] at hread
  exact (hsame.trans hread).symm

end

end Stowage.Json
