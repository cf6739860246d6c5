import Stowage.Proofs.Json.Likeness
import Stowage.Proofs.Json.Shape
/-!
# Stowage — JSON values beyond the depth of a reader

A value that nests deeper than a reader goes is not read back from its own text: the reader stops,
because of the depth and for no other reason (`value_print_deep`). What stands before the value that
is too deep is read as usual, so an array or an object is followed up to its first such value.
-/

namespace Stowage.Json

/-- `Passed item v`: the reader gets past the text of a value, whatever it reads it as. -/
def Passed (item : Reader Json) (v : Json) : Prop := ∃ w, RereadsAs item v w

/-- `Deep item v`: the reader stops at the text of a value, which nests too deep, whatever follows. -/
def Deep (item : Reader Json) (v : Json) : Prop :=
  ∀ rest, Delimits rest → ∃ left, item (print v ++ rest) = .error ⟨.tooDeep, left⟩

variable {item : Reader Json}

/-- No reader both takes a value and stops because of it. -/
theorem Deep.not_passed {v : Json} (h : Deep item v) : ¬ Passed item v := by
  rintro ⟨w, hreads⟩
  obtain ⟨left, hstop⟩ := h [] .nil
  rw [hreads [] .nil] at hstop
  cases hstop

/-- Where the first value is passed, the one that is too deep comes later. -/
theorem exists_deep_tail {α : Type} {part : α → Json} {x : α} {xs : List α}
    (hpassed : Passed item (part x)) (h : ∃ y ∈ x :: xs, Deep item (part y)) :
    ∃ y ∈ xs, Deep item (part y) := by
  obtain ⟨y, hy, hdeep⟩ := h
  rcases List.mem_cons.mp hy with rfl | hy
  · exact absurd hpassed hdeep.not_passed
  · exact ⟨y, hy, hdeep⟩

/-! ## Arrays

Before the first item that is too deep all items are read, so the reader gets there and stops for that
reason. -/

/-- The items after the first are read up to the first one that is too deep. Induction on the items. -/
theorem itemsOnto_deep {rest : Bytes} :
    ∀ (values : List Json) (fuel : Nat) (acc : List Json),
      (∀ v ∈ values, Passed item v ∨ Deep item v) → (∃ v ∈ values, Deep item v) →
      (moreItems values ++ 93 :: rest).length ≤ fuel →
        ∃ left, itemsOnto item fuel acc (moreItems values ++ 93 :: rest) =
          .error ⟨.tooDeep, left⟩ := by
  intro values
  induction values with
  | nil =>
    rintro fuel acc - ⟨v, hv, -⟩
    cases hv
  | cons v values ih =>
    intro fuel acc hvalues hdeep hfuel
    rw [moreItems_cons_append] at hfuel ⊢
    simp only [List.length_cons, List.length_append] at hfuel
    obtain ⟨fuel, rfl⟩ : ∃ k, fuel = k + 1 := ⟨fuel - 1, by omega⟩
    rw [itemsOnto_comma]
    rcases hvalues v (List.mem_cons_self ..) with ⟨w, hreads⟩ | hstop
    · -- this item is read, so the one that is too deep comes later
      rw [hreads _ (delimits_moreItems values rest)]
      exact ih fuel (w :: acc) (fun u hu => hvalues u (List.mem_cons_of_mem _ hu))
        (exists_deep_tail ⟨w, hreads⟩ hdeep)
        (by simp only [List.length_append, List.length_cons]; omega)
    · obtain ⟨left, hleft⟩ := hstop _ (delimits_moreItems values rest)
      rw [hleft]
      exact ⟨left, rfl⟩

/-- An array stops its reader if one of its items does. -/
theorem items_deep {values : List Json} (rest : Bytes)
    (hvalues : ∀ v ∈ values, Passed item v ∨ Deep item v) (hdeep : ∃ v ∈ values, Deep item v) :
    ∃ left, items item (printItems values ++ 93 :: rest) = .error ⟨.tooDeep, left⟩ := by
  cases values with
  | nil =>
    obtain ⟨v, hv, -⟩ := hdeep
    cases hv
  | cons v values =>
    rw [printItems_cons, List.append_assoc, items_first]
    rcases hvalues v (List.mem_cons_self ..) with ⟨w, hreads⟩ | hstop
    · rw [hreads _ (delimits_moreItems values rest)]
      exact itemsOnto_deep values _ [w] (fun u hu => hvalues u (List.mem_cons_of_mem _ hu))
        (exists_deep_tail ⟨w, hreads⟩ hdeep) (Nat.le_succ (moreItems values ++ 93 :: rest).length)
    · obtain ⟨left, hleft⟩ := hstop _ (delimits_moreItems values rest)
      rw [hleft]
      exact ⟨left, rfl⟩

/-! ## Objects

The same for members; their keys are read before their values. -/

/-- The members after the first are read up to the first one that is too deep. Induction on the
members. -/
theorem membersOnto_deep {rest : Bytes} :
    ∀ (ms : Members) (fuel : Nat) (acc : Members),
      (∀ m ∈ ms, Passed item m.2 ∨ Deep item m.2) → (∃ m ∈ ms, Deep item m.2) →
      (moreMembers ms ++ 125 :: rest).length ≤ fuel →
        ∃ left, membersOnto item fuel acc (moreMembers ms ++ 125 :: rest) =
          .error ⟨.tooDeep, left⟩ := by
  intro ms
  induction ms with
  | nil =>
    rintro fuel acc - ⟨m, hm, -⟩
    cases hm
  | cons m ms ih =>
    intro fuel acc hmembers hdeep hfuel
    rw [moreMembers_cons_append] at hfuel ⊢
    simp only [List.length_cons, List.length_append] at hfuel
    obtain ⟨fuel, rfl⟩ : ∃ k, fuel = k + 1 := ⟨fuel - 1, by omega⟩
    rw [membersOnto_comma, member_keyAndValue]
    -- a member that is read leaves the one that is too deep for later
    rcases hmembers m (List.mem_cons_self ..) with ⟨w, hreads⟩ | hstop
    · rw [hreads _ (delimits_moreMembers ms rest)]
      exact ih fuel ((m.1, w) :: acc) (fun n hn => hmembers n (List.mem_cons_of_mem _ hn))
        (exists_deep_tail ⟨w, hreads⟩ hdeep)
        (by simp only [List.length_append, List.length_cons]; omega)
    · obtain ⟨left, hleft⟩ := hstop _ (delimits_moreMembers ms rest)
      rw [hleft]
      exact ⟨left, rfl⟩

/-- An object stops its reader if the value of one of its members does. -/
theorem members_deep {ms : Members} (rest : Bytes)
    (hmembers : ∀ m ∈ ms, Passed item m.2 ∨ Deep item m.2) (hdeep : ∃ m ∈ ms, Deep item m.2) :
    ∃ left, members item (printMembers ms ++ 125 :: rest) = .error ⟨.tooDeep, left⟩ := by
  cases ms with
  | nil =>
    obtain ⟨m, hm, -⟩ := hdeep
    cases hm
  | cons m ms =>
    rw [members_first, member_keyAndValue]
    rcases hmembers m (List.mem_cons_self ..) with ⟨w, hreads⟩ | hstop
    · rw [hreads _ (delimits_moreMembers ms rest)]
      exact membersOnto_deep ms _ [(m.1, w)] (fun n hn => hmembers n (List.mem_cons_of_mem _ hn))
        (exists_deep_tail ⟨w, hreads⟩ hdeep) (Nat.le_succ (moreMembers ms ++ 125 :: rest).length)
    · obtain ⟨left, hleft⟩ := hstop _ (delimits_moreMembers ms rest)
      rw [hleft]
      exact ⟨left, rfl⟩

/-! ## Values

A value that is too deep is an array or an object in which some value is too deep for the next reader.
With no depth left there is no next reader, and the first bracket or brace is one too many. -/

/-- An array that is too deep has an item that is too deep for one level less. -/
theorem exists_item_not_nested {depth : Nat} {values : List Json}
    (h : ¬ Nested (depth + 1) (.array values)) : ∃ v ∈ values, ¬ Nested depth v := by
  by_contra hall
  simp only [not_exists, not_and, not_not] at hall
  exact h (.array depth values hall)

/-- An object with distinct keys that is too deep has a member that is too deep for one level less. -/
theorem exists_member_not_nested {depth : Nat} {ms : Members} (hkeys : ms.keys.Nodup)
    (h : ¬ Nested (depth + 1) (.object ms)) : ∃ m ∈ ms, ¬ Nested depth m.2 := by
  by_contra hall
  simp only [not_exists, not_and, not_not] at hall
  exact h (.object depth ms hkeys hall)

/-- **Too deep.** A value with numbers that can be read, and distinct keys, that nests deeper than a reader
goes stops the reader. Induction on the depth: a reader without depth stops at the first bracket or
brace, any other one at the first item or member that is too deep for the reader of items. -/
theorem value_print_deep {depth deeper : Nat} {v : Json} (hnested : Nested deeper v)
    (hreadable : AllNumbers Number.Readable v) (h : ¬ Nested depth v) : Deep (value depth) v := by
  induction depth generalizing deeper v with
  | zero =>
    intro rest _
    cases hnested with
    | null => exact absurd (.null 0) h
    | bool _ b => exact absurd (.bool 0 b) h
    | number _ n => exact absurd (.number 0 n) h
    | string _ s => exact absurd (.string 0 s) h
    | array _ values _ =>
      rw [print_array_append, value, valueWith, skipBlanks_cons (by decide)]
      exact ⟨_, rfl⟩
    | object _ ms _ _ =>
      rw [print_object_append, value, valueWith, skipBlanks_cons (by decide)]
      exact ⟨_, rfl⟩
  -- an item is read at the next depth if it nests that deep, and is too deep for it otherwise
  | succ depth ih =>
    have hsplit : ∀ {k : Nat} {w : Json}, Nested k w → AllNumbers Number.Readable w →
        Passed (value depth) w ∨ Deep (value depth) w := by
      intro k w hw hnumbers
      by_cases hin : Nested depth w
      · exact .inl (exists_value_print hin hnumbers)
      · exact .inr (ih hw hnumbers hin)
    intro rest _
    cases hnested with
    | null => exact absurd (.null _) h
    | bool _ b => exact absurd (.bool _ b) h
    | number _ n => exact absurd (.number _ n) h
    | string _ s => exact absurd (.string _ s) h
    | array _ values hitems =>
      obtain ⟨v, hv, hdeep⟩ := exists_item_not_nested h
      obtain ⟨left, hleft⟩ := items_deep rest
        (fun v hv => hsplit (hitems v hv) (hreadable.item hv))
        ⟨v, hv, ih (hitems v hv) (hreadable.item hv) hdeep⟩
      rw [print_array_append, value, valueWith_bracket, hleft]
      exact ⟨left, rfl⟩
    | object _ ms hkeys hmembers =>
      obtain ⟨m, hm, hdeep⟩ := exists_member_not_nested hkeys h
      obtain ⟨left, hleft⟩ := members_deep rest
        (fun m hm => hsplit (hmembers m hm) (hreadable.member hm))
        ⟨m, hm, ih (hmembers m hm) (hreadable.member hm) hdeep⟩
      rw [print_object_append, value, valueWith_brace, hleft]
      exact ⟨left, rfl⟩

/-- A value that is too deep is not taken for nothing: the optional reader stops there as well. -/
theorem optional_print_deep {v : Json} (hdeep : Deep item v) (hnull : v ≠ .null) {rest : Bytes}
    (hrest : Delimits rest) :
    ∃ left, optional item (print v ++ rest) = .error ⟨.tooDeep, left⟩ := by
  obtain ⟨left, hitem⟩ := hdeep rest hrest
  refine ⟨left, ?_⟩
  rw [optional_print_of_ne item hnull, hitem]
  rfl

end Stowage.Json
