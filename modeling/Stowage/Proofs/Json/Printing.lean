import Stowage.Proofs.Json.Denotation
import Stowage.Proofs.Json.Nesting
/-!
# Stowage — printed values that are read again

The text of a value spells the value, with the numerals that its numbers are printed as
(`spelled_print`). So the text is read again just if the value is no deeper than the reader goes and its
numbers are read again (`read?_print_eq`).
-/

namespace Stowage.Json

/-! ## Whole texts

A text may spell a tree that is deeper than a reader goes. What it is read as is decided by the tree and
by the depth, and the text itself is not looked at again. -/

/-- A text spells one tree at most. -/
theorem Spells.unique {whole : Bytes} {t u : Tree Numeral} (h : Spells whole t) (h' : Spells whole u) :
    t = u := by
  obtain ⟨depth, rest, hspelled, -⟩ := h
  obtain ⟨depth', rest', hspelled', -⟩ := h'
  exact (hspelled.unique hspelled').1

/-- A text that is read spells what is read. -/
theorem exists_spells {whole : Bytes} {v : Json} (h : read? whole = some v) :
    ∃ t, Spells whole t ∧ t.read? = some v := by
  obtain ⟨rest, hread, hend⟩ := read?_eq_some_iff.mp h
  obtain ⟨t, ht⟩ := exists_spelled maxDepth _ _ _ hread (delimits_of_end hend)
  have hvalue := (readBy_value maxDepth).read _ _ _ ht
  rw [hread] at hvalue
  obtain ⟨w, hw, heq⟩ := Option.map_eq_some_iff.mp hvalue.symm
  cases heq
  exact ⟨t, ⟨maxDepth, rest, ht, hend⟩, hw⟩

/-- A text that spells a tree, no deeper than the reader goes, is read as it. -/
theorem read?_of_spelled {whole rest : Bytes} {t : Tree Numeral} (h : Spelled maxDepth whole t rest)
    (hend : skipBlanks rest = []) : read? whole = t.read? := by
  rw [read?, read, toOption_readWith, (readBy_value maxDepth).read _ _ _ h, Option.bind_map]
  simp [hend]

/-- Every number of a text that is read is one that can be read. -/
theorem read?_readable {whole : Bytes} {v : Json} (h : read? whole = some v) :
    AllNumbers Number.Readable v := by
  obtain ⟨t, -, ht⟩ := exists_spells h
  exact t.readable_read? v ht

/-! ## What is printed

The tree that a value is printed as has the numerals of its numbers and is otherwise the value. Every
item is followed by a comma, a bracket or a brace, and none of these can be taken for more of a number.
-/

/-- The numerals that a value is printed with. -/
def printed (v : Json) : Tree Numeral := (Tree.ofJson v).map Number.numeral

section

variable {item : Bytes → Tree Numeral → Bytes → Prop} {rest : Bytes}

/-- `Spelt item v`: what is printed for a value is spelled, whatever follows it. -/
def Spelt (item : Bytes → Tree Numeral → Bytes → Prop) (v : Json) : Prop :=
  ∀ rest, Delimits rest → item (print v ++ rest) (printed v) rest

/-- The items after the first are spelled behind their commas. -/
theorem moreItems_print {values : List Json} (h : ∀ v ∈ values, Spelt item v) :
    MoreItems item (moreItems values ++ 93 :: rest) (values.map printed) rest := by
  induction values with
  | nil => exact .close (skipBlanks_cons (by decide) rest)
  | cons v values ih =>
    rw [List.forall_mem_cons] at h
    rw [moreItems_cons_append, List.map_cons]
    refine .comma (skipBlanks_cons (by decide) _) ?_ (ih h.2)
    rw [skipBlanks_print]
    exact h.1 _ (delimits_moreItems values rest)

/-- The items of an array are spelled up to its bracket. -/
theorem listAt_print {values : List Json} (h : ∀ v ∈ values, Spelt item v) :
    ListAt item (printItems values ++ 93 :: rest) (values.map printed) rest := by
  cases values with
  | nil => exact .empty (skipBlanks_cons (by decide) rest)
  | cons v values =>
    rw [List.forall_mem_cons] at h
    obtain ⟨b, more, hprint, hblank, hb⟩ := print_eq_cons v
    have hspelt := h.1 _ (delimits_moreItems values rest)
    rw [printItems_cons, List.append_assoc]
    rw [hprint, List.cons_append] at hspelt ⊢
    exact .first (skipBlanks_cons hblank _) hb hspelt (moreItems_print h.2)

/-- A member is spelled as its key and its value. -/
theorem memberAt_print {m : String × Json} (h : Spelt item m.2) (hrest : Delimits rest) :
    MemberAt item (keyAndValue m ++ rest) m.1 (printed m.2) rest := by
  rw [keyAndValue, List.append_assoc, List.cons_append, List.cons_append]
  exact .intro (text_printString _ _) (colon_cons _) (h rest hrest)

/-- The members after the first are spelled behind their commas. -/
theorem moreMembers_print {ms : Members} (h : ∀ m ∈ ms, Spelt item m.2) :
    MoreMembers item (moreMembers ms ++ 125 :: rest) (ms.map fun m => (m.1, printed m.2)) rest := by
  induction ms with
  | nil => exact .close (skipBlanks_cons (by decide) rest)
  | cons m ms ih =>
    rw [List.forall_mem_cons] at h
    rw [moreMembers_cons_append, List.map_cons]
    exact .comma (skipBlanks_cons (by decide) _) (skipBlanks_cons (by decide) _)
      (memberAt_print h.1 (delimits_moreMembers ms rest)) (ih h.2)

/-- The members of an object are spelled up to its brace. -/
theorem objectAt_print {ms : Members} (h : ∀ m ∈ ms, Spelt item m.2) :
    ObjectAt item (printMembers ms ++ 125 :: rest) (ms.map fun m => (m.1, printed m.2)) rest := by
  cases ms with
  | nil => exact .empty (skipBlanks_cons (by decide) rest)
  | cons m ms =>
    rw [List.forall_mem_cons] at h
    rw [printMembers_cons, printMember_eq, List.cons_append, List.cons_append, List.append_assoc]
    exact .first (skipBlanks_cons (by decide) _) (memberAt_print h.1 (delimits_moreMembers ms rest))
      (moreMembers_print h.2)

theorem printed_null : printed .null = .null := by
  simp only [printed, Tree.ofJson, Tree.map]

theorem printed_bool (b : Bool) : printed (.bool b) = .bool b := by
  simp only [printed, Tree.ofJson, Tree.map]

theorem printed_number (n : Number) : printed (.number n) = .number n.numeral := by
  simp only [printed, Tree.ofJson, Tree.map]

theorem printed_string (s : String) : printed (.string s) = .string s := by
  simp only [printed, Tree.ofJson, Tree.map]

theorem printed_array (values : List Json) : printed (.array values) = .array (values.map printed) := by
  rw [printed, Tree.ofJson, Tree.map, List.map_map]
  rfl

/-- An object is printed with its keys as they are, and the value of each member as its tree. -/
theorem printed_object (ms : Members) :
    printed (.object ms) = .object (ms.map fun m => (m.1, printed m.2)) := by
  rw [printed, Tree.ofJson, Tree.map, List.map_map]
  rfl

/-- A number is spelled as its numeral. -/
theorem spelledFrom_number (n : Number) (hrest : Delimits rest)
    (outer : Option (Bytes → Tree Numeral → Bytes → Prop)) :
    ∃ b bytes, skipBlanks (print (.number n) ++ rest) = b :: bytes ∧
      SpelledFrom outer b bytes (.number n.numeral) rest := by
  obtain ⟨b, more, htext, hb⟩ := n.exists_head
  refine ⟨b, more ++ rest, ?_, ?_⟩
  · rw [skipBlanks_print, print, htext, List.cons_append]
  · have hne : ∀ c : UInt8, isDigit c = false → c ≠ 45 → b ≠ c := by
      rintro c hc hminus rfl
      rcases hb with hdigit | rfl
      · exact ne_of_isDigit hdigit hc rfl
      · exact hminus rfl
    unfold SpelledFrom
    rw [if_neg (hne 110 (by decide) (by decide)), if_neg (hne 116 (by decide) (by decide)),
      if_neg (hne 102 (by decide) (by decide)), if_pos hb.symm]
    refine ⟨n.numeral, n.wellFormed_numeral, hrest, ?_, rfl⟩
    rw [n.text_numeral, htext, List.cons_append]

/-- One case for each kind of value; those with items take them as they are spelled. -/
theorem spelledFrom_print {outer : Option (Bytes → Tree Numeral → Bytes → Prop)} {v : Json}
    (harray : ∀ values, v = .array values → ∃ item, outer = some item ∧ ∀ w ∈ values, Spelt item w)
    (hobject : ∀ ms, v = .object ms → ∃ item, outer = some item ∧ ∀ m ∈ ms, Spelt item m.2)
    (hrest : Delimits rest) :
    ∃ b bytes, skipBlanks (print v ++ rest) = b :: bytes ∧ SpelledFrom outer b bytes (printed v) rest := by
  -- the first byte of the text is the one that the reader would go by
  cases v with
  | null =>
    refine ⟨110, utf8 "ull" ++ rest, ?_, ?_, printed_null⟩
    · rw [skipBlanks_print, print]
      rfl
    · rw [show utf8 "ull" = [117, 108, 108] by decide]
      rfl
  | bool b =>
    cases b with
    | false =>
      refine ⟨102, utf8 "alse" ++ rest, ?_, ?_, printed_bool false⟩
      · rw [skipBlanks_print, print]
        rfl
      · rw [show utf8 "alse" = [97, 108, 115, 101] by decide]
        rfl
    | true =>
      refine ⟨116, utf8 "rue" ++ rest, ?_, ?_, printed_bool true⟩
      · rw [skipBlanks_print, print]
        rfl
      · rw [show utf8 "rue" = [114, 117, 101] by decide]
        rfl
  | number n => exact printed_number n ▸ spelledFrom_number n hrest outer
  | string s =>
    refine ⟨34, Utf8.encode (s.toList.flatMap escape) ++ 34 :: rest, ?_, s, text_printString s rest,
      printed_string s⟩
    rw [skipBlanks_print, print, printString_eq, List.cons_append, List.append_assoc]
    rfl
  | array values =>
    obtain ⟨item, houter, hitems⟩ := harray values rfl
    refine ⟨91, printItems values ++ 93 :: rest, ?_, item, _, houter, listAt_print hitems,
      printed_array values⟩
    rw [skipBlanks_print, print_array_append]
  | object ms =>
    obtain ⟨item, houter, hitems⟩ := hobject ms rfl
    refine ⟨123, printMembers ms ++ 125 :: rest, ?_, item, _, houter, objectAt_print hitems,
      printed_object ms⟩
    rw [skipBlanks_print, print_object_append]

/-- **The text of a value** spells it, at any depth that it does not exceed. Induction on the depth. -/
theorem spelled_print {depth : Nat} {v : Json} (h : (Tree.ofJson v).depth ≤ depth) :
    Spelt (Spelled depth) v := by
  induction depth generalizing v with
  | zero =>
    intro rest hrest
    refine spelledFrom_print ?_ ?_ hrest
    · rintro values rfl
      simp [Tree.ofJson, Tree.depth] at h
    · rintro ms rfl
      simp [Tree.ofJson, Tree.depth] at h
  | succ depth ih =>
    intro rest hrest
    refine spelledFrom_print ?_ ?_ hrest
    · rintro values rfl
      rw [Tree.ofJson, Tree.depth_array_le, List.forall_mem_map] at h
      exact ⟨Spelled depth, rfl, fun w hw => ih (h w hw)⟩
    · rintro ms rfl
      rw [Tree.ofJson, Tree.depth_object_le, List.forall_mem_map] at h
      exact ⟨Spelled depth, rfl, fun m hm => ih (h m hm)⟩

end

/-- **What is printed** for a value spells its tree. -/
theorem spells_print (v : Json) : Spells (print v) (printed v) := by
  have h := spelled_print (Nat.le_refl (Tree.ofJson v).depth) [] .nil
  rw [List.append_nil] at h
  exact ⟨_, [], h, rfl⟩

/-- **Printing and reading again**: what comes back is each number read by itself, unless the value is
deeper than the reader goes. -/
theorem read?_print_eq (v : Json) :
    read? (print v) = if (Tree.ofJson v).depth ≤ maxDepth then (printed v).read? else none := by
  split
  · next hdepth =>
    have h := spelled_print hdepth [] .nil
    rw [List.append_nil] at h
    exact read?_of_spelled h rfl
  · next hdepth =>
    cases hread : read? (print v) with
    | none => rfl
    | some w =>
      -- a text that is read spells a tree that is not too deep, and there is only one
      exfalso
      obtain ⟨rest, hvalue, hend⟩ := read?_eq_some_iff.mp hread
      obtain ⟨t, ht⟩ := exists_spelled maxDepth _ _ _ hvalue (delimits_of_end hend)
      obtain rfl := Spells.unique ⟨maxDepth, rest, ht, hend⟩ (spells_print v)
      have hle := ht.depth_le
      rw [printed, Tree.depth_map] at hle
      exact hdepth hle

end Stowage.Json
