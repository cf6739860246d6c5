import Mathlib.Data.List.Forall2
import Stowage.Proofs.Json.Printing
/-!
# Stowage — JSON values read back, but for roundings

A binary64 number may come back as a neighbour of itself. Everything else in a value comes back as it was:
what is read from the text of a value is `Alike` (`exists_read?_print`). Only a value that is deeper than
the reader goes does not come back (`read?_print_isSome_iff`).
-/

namespace Stowage.Json

mutual

/-- `Alike v w`: the values differ at most in their binary64 numbers. -/
inductive Alike : Json → Json → Prop where
  | null : Alike .null .null
  | bool (b : Bool) : Alike (.bool b) (.bool b)
  | whole (i : Int) : Alike (.number (.int i)) (.number (.int i))
  | real (x y : Binary64) : Alike (.number (.real x)) (.number (.real y))
  | string (s : String) : Alike (.string s) (.string s)
  | array {values others : List Json} (h : List.Forall₂ Alike values others) :
      Alike (.array values) (.array others)
  | object {ms ns : List (String × Json)} (h : AlikeMembers ms ns) : Alike (.object ms) (.object ns)

/-- Members under the same keys whose values are alike. -/
inductive AlikeMembers : List (String × Json) → List (String × Json) → Prop where
  | nil : AlikeMembers [] []
  | cons {key : String} {v w : Json} {ms ns : List (String × Json)} (hvalue : Alike v w)
      (h : AlikeMembers ms ns) : AlikeMembers ((key, v) :: ms) ((key, w) :: ns)

end

/-- Alike objects have the same keys in the same order. -/
theorem AlikeMembers.keys_eq {ms ns : Members} (h : AlikeMembers ms ns) : ns.keys = ms.keys := by
  induction ms generalizing ns with
  | nil =>
    cases h
    rfl
  | cons m ms ih =>
    cases h with
    | @cons key _ _ _ _ _ h => exact congrArg (List.cons key) (ih h)

/-- What stands under a key in the one stands under it in the other. -/
theorem AlikeMembers.get? {ms ns : Members} (h : AlikeMembers ms ns) (key : String) :
    (ms.get? key = none ∧ ns.get? key = none) ∨
      ∃ v w, ms.get? key = some v ∧ ns.get? key = some w ∧ Alike v w := by
  induction ms generalizing ns with
  | nil =>
    cases h
    exact .inl ⟨rfl, rfl⟩
  | cons m ms ih =>
    cases h with
    | @cons name v w _ ns halike h =>
      have hrest := ih h
      simp only [Members.get?_eq] at hrest ⊢
      by_cases hkey : name = key
      · subst hkey
        rw [Assoc.find?_cons_self, Assoc.find?_cons_self]
        exact .inr ⟨v, w, rfl, rfl, halike⟩
      · rw [Assoc.find?_cons_of_ne _ _ hkey, Assoc.find?_cons_of_ne _ _ hkey]
        exact hrest

/-- Every member of the one is like a member of the other. -/
theorem AlikeMembers.exists_mem {ms ns : Members} (h : AlikeMembers ms ns) :
    ∀ n ∈ ns, ∃ m ∈ ms, Alike m.2 n.2 := by
  induction ms generalizing ns with
  | nil =>
    cases h
    exact fun n hn => absurd hn List.not_mem_nil
  | cons m ms ih =>
    cases h with
    | cons halike h =>
      rw [List.forall_mem_cons]
      refine ⟨⟨_, List.mem_cons_self .., halike⟩, fun n hn => ?_⟩
      obtain ⟨k, hk, hlike⟩ := ih h n hn
      exact ⟨k, List.mem_cons_of_mem _ hk, hlike⟩

theorem AlikeMembers.refl {ms : Members} (h : ∀ m ∈ ms, Alike m.2 m.2) : AlikeMembers ms ms := by
  induction ms with
  | nil => exact .nil
  | cons m ms ih =>
    rw [List.forall_mem_cons] at h
    exact .cons h.1 (ih h.2)

/-- Every value is like itself. Induction on the nesting. -/
theorem Alike.refl {depth : Nat} {v : Json} (h : Nested depth v) : Alike v v := by
  induction h with
  | null => exact .null
  | bool _ b => exact .bool b
  | number _ n =>
    cases n with
    | int i => exact .whole i
    | real x => exact .real x x
  | string _ s => exact .string s
  | array _ values _ ih => exact .array (List.forall₂_same.mpr ih)
  | object _ ms _ _ ih => exact .object (.refl ih)

/-! ## What comes back

Values are read back through the numerals that they are printed with. Each numeral is read to a number
of its kind, and lists of such numbers make alike values. -/

/-- A number comes back as one of its kind. -/
theorem Number.Readable.alike {n : Number} (h : n.Readable) :
    ∃ m, n.numeral.number? = some m ∧ Alike (.number n) (.number m) := by
  obtain ⟨m, hm⟩ := Option.isSome_iff_exists.mp h.reread
  refine ⟨m, hm, ?_⟩
  cases n with
  | int i =>
    cases h with
    | whole _ hwhole =>
      rw [hwhole.reread] at hm
      cases hm
      exact .whole i
  | real x =>
    obtain ⟨y, rfl⟩ := Numeral.real_of_number? (Number.real_numeral x) hm
    exact .real x y

/-- If each item comes back, so does the array. -/
theorem exists_items_alike {values : List Json}
    (h : ∀ v ∈ values, ∃ w, (printed v).read? = some w ∧ Alike v w) :
    ∃ others, readItems (values.map printed) = some others ∧ List.Forall₂ Alike values others := by
  induction values with
  | nil => exact ⟨[], rfl, .nil⟩
  | cons v values ih =>
    rw [List.forall_mem_cons] at h
    obtain ⟨⟨w, hw, halike⟩, hvalues⟩ := h
    obtain ⟨others, hothers, hall⟩ := ih hvalues
    refine ⟨w :: others, ?_, .cons halike hall⟩
    rw [List.map_cons, readItems, hw, hothers]
    rfl

/-- If the value of each member comes back, so does the object. -/
theorem exists_members_alike {ms : Members}
    (h : ∀ m ∈ ms, ∃ w, (printed m.2).read? = some w ∧ Alike m.2 w) :
    ∃ ns, readMembers (ms.map fun m => (m.1, printed m.2)) = some ns ∧ AlikeMembers ms ns := by
  induction ms with
  | nil => exact ⟨[], rfl, .nil⟩
  | cons m ms ih =>
    rw [List.forall_mem_cons] at h
    obtain ⟨⟨w, hw, halike⟩, hmembers⟩ := h
    obtain ⟨ns, hns, hall⟩ := ih hmembers
    refine ⟨(m.1, w) :: ns, ?_, .cons halike hall⟩
    rw [List.map_cons, readMembers, hw, hns]
    rfl

/-- A value whose numbers can be read is printed as numerals that are read as a value like it. -/
theorem exists_alike {depth : Nat} {v : Json} (hnested : Nested depth v)
    (hreadable : AllNumbers Number.Readable v) : ∃ w, (printed v).read? = some w ∧ Alike v w := by
  induction hnested with
  | null =>
    rw [printed_null]
    exact ⟨.null, rfl, .null⟩
  | bool _ b =>
    rw [printed_bool]
    exact ⟨.bool b, rfl, .bool b⟩
  | number _ n =>
    cases hreadable with
    | number _ hn =>
      obtain ⟨m, hm, halike⟩ := hn.alike
      refine ⟨.number m, ?_, halike⟩
      rw [printed_number, Tree.read?, hm, Option.map_some]
  | string _ s =>
    rw [printed_string]
    exact ⟨.string s, rfl, .string s⟩
  | array _ values _ ih =>
    obtain ⟨others, hread, hall⟩ := exists_items_alike fun v hv => ih v hv (hreadable.item hv)
    refine ⟨.array others, ?_, .array hall⟩
    rw [printed_array, Tree.read?, hread, Option.map_some]
  | object _ ms hkeys _ ih =>
    obtain ⟨ns, hread, hall⟩ := exists_members_alike fun m hm => ih m hm (hreadable.member hm)
    -- the keys are those of the object, so collecting the members changes nothing
    have hnodup : (Members.keys ns).Nodup := by rwa [hall.keys_eq]
    refine ⟨.object ns, ?_, .object hall⟩
    rw [printed_object, Tree.read?, hread, Option.map_some, Members.ofList_eq_self hnodup]

/-- **Reading back, but for roundings.** The text of a value that nests no deeper than the reader allows,
and whose numbers are those that a reader gives, is read as a value that is like it. -/
theorem exists_read?_print {v : Json} (hnested : Nested maxDepth v)
    (hreadable : AllNumbers Number.Readable v) : ∃ w, read? (print v) = some w ∧ Alike v w := by
  rw [read?_print_eq, if_pos hnested.depth_le]
  exact exists_alike hnested hreadable

/-- A reader that goes deep enough for a value reads its text whatever follows it, and the value that it
gives depends on the numerals alone. -/
theorem value_print_alike {depth : Nat} {v w : Json} (hnested : Nested depth v)
    (h : (printed v).read? = some w) : RereadsAs (value depth) v w := by
  intro rest hrest
  have hread := (readBy_value depth).read _ _ _ (spelled_print hnested.depth_le rest hrest)
  rw [h, Option.map_some] at hread
  exact ok_of_toOption hread

/-- A value that nests no deeper than a reader comes back from it as one that is alike. -/
theorem exists_value_print {depth : Nat} {v : Json} (hnested : Nested depth v)
    (hreadable : AllNumbers Number.Readable v) : ∃ w, RereadsAs (value depth) v w := by
  obtain ⟨w, hread, -⟩ := exists_alike hnested hreadable
  exact ⟨w, value_print_alike hnested hread⟩

/-- So a value that is part of a text is read as it is when it stands alone. -/
theorem value_print_of_read? {depth : Nat} {v w : Json} (hnested : Nested depth v)
    (hdepth : depth ≤ maxDepth) (h : read? (print v) = some w) : RereadsAs (value depth) v w := by
  rw [read?_print_eq, if_pos (Nat.le_trans hnested.depth_le hdepth)] at h
  exact value_print_alike hnested h

/-- Whatever is read from the text of a value is like that value. -/
theorem read?_print_alike {v w : Json} (hnested : Nested maxDepth v)
    (hreadable : AllNumbers Number.Readable v) (h : read? (print v) = some w) : Alike v w := by
  obtain ⟨u, hread, halike⟩ := exists_read?_print hnested hreadable
  rw [h] at hread
  cases hread
  exact halike

/-- A value that is deeper than the reader goes does not come back. -/
theorem read?_print_isSome_iff {depth : Nat} {v : Json} (hnested : Nested depth v)
    (hreadable : AllNumbers Number.Readable v) :
    (∃ w, read? (print v) = some w) ↔ Nested maxDepth v := by
  constructor
  · rintro ⟨w, hread⟩
    by_contra hdeep
    rw [read?_print_eq, if_neg fun hdepth => hdeep (hnested.of_depth_le hdepth)] at hread
    cases hread
  · intro h
    obtain ⟨w, hread, -⟩ := exists_read?_print h hreadable
    exact ⟨w, hread⟩

/-- An object comes back with its keys. -/
theorem keys_of_read?_print {ms : Members} {w : Json} (hnested : Nested maxDepth (.object ms))
    (hreadable : AllNumbers Number.Readable (.object ms))
    (h : read? (print (.object ms)) = some w) : ∃ ns, w = .object ns ∧ Members.keys ns = ms.keys := by
  cases read?_print_alike hnested hreadable h with
  | object halike => exact ⟨_, rfl, halike.keys_eq⟩

end Stowage.Json
