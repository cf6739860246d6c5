import Mathlib.Tactic.Common
/-!
# Stowage — association lists

Payloads, members of objects and files are kept in lists of pairs that are searched by key. These
are the laws of that search, for keys of any type: what it finds at the head of a list, and what it
finds after the value of a key has been replaced, appended or taken out.
-/

namespace Stowage.Assoc

variable {κ β : Type} [BEq κ] [LawfulBEq κ]

/-- The value that is found first under a key. -/
abbrev find? (pairs : List (κ × β)) (key : κ) : Option β :=
  (pairs.find? fun p => p.1 == key).map Prod.snd

/-- A pair at the front hides every later one with its key. -/
theorem find?_cons_self (key : κ) (value : β) (pairs : List (κ × β)) :
    find? ((key, value) :: pairs) key = some value := by
  simp [find?]

/-- A pair with another key is passed over. -/
theorem find?_cons_of_ne {key other : κ} (value : β) (pairs : List (κ × β)) (h : key ≠ other) :
    find? ((key, value) :: pairs) other = find? pairs other := by
  simp [find?, h]

/-- Nothing is found under a key exactly if no pair has it. -/
theorem find?_eq_none_iff {pairs : List (κ × β)} {key : κ} :
    find? pairs key = none ↔ ∀ p ∈ pairs, p.1 ≠ key := by
  simp [find?]

/-- Where keys are distinct, every pair is found. -/
theorem find?_eq_some_of_mem {pairs : List (κ × β)} {key : κ} {value : β}
    (hnodup : (pairs.map Prod.fst).Nodup) (h : (key, value) ∈ pairs) :
    find? pairs key = some value := by
  induction pairs with
  | nil => cases h
  | cons head rest ih =>
    obtain ⟨k, v⟩ := head
    rw [List.map_cons, List.nodup_cons] at hnodup
    rcases List.mem_cons.mp h with heq | hrest
    · cases heq
      exact find?_cons_self key value rest
    · have hne : k ≠ key := by
        rintro rfl
        exact hnodup.1 (List.mem_map.mpr ⟨_, hrest, rfl⟩)
      rw [find?_cons_of_ne v rest hne]
      exact ih hnodup.2 hrest

/-- The value under a key is replaced where it stands. -/
theorem find?_replace [DecidableEq κ] (pairs : List (κ × β)) (key other : κ) (value : β) :
    find? (pairs.map fun p => if p.1 == key then (key, value) else p) other =
      if other = key then (find? pairs key).map fun _ => value else find? pairs other := by
  induction pairs with
  | nil => split <;> rfl
  | cons head rest ih =>
    obtain ⟨k, v⟩ := head
    rw [List.map_cons]
    by_cases hk : k = key
    · subst hk
      simp only [beq_self_eq_true, if_true]
      by_cases hother : other = k
      · subst hother
        rw [if_pos rfl, find?_cons_self, find?_cons_self, Option.map_some]
      · rw [find?_cons_of_ne _ _ (Ne.symm hother), ih, if_neg hother, if_neg hother,
          find?_cons_of_ne _ _ (Ne.symm hother)]
    -- the head has another key and stays; it may still be the one that is looked for
    · have hbeq : (k == key) = false := by simp [hk]
      simp only [hbeq, Bool.false_eq_true, if_false]
      by_cases hother : k = other
      · subst hother
        rw [find?_cons_self, if_neg hk, find?_cons_self]
      · rw [find?_cons_of_ne _ _ hother, ih, find?_cons_of_ne _ _ hother,
          find?_cons_of_ne _ _ hk]

/-- A pair at the end is found when nothing before it is. -/
theorem find?_append_singleton [DecidableEq κ] (pairs : List (κ × β)) (key other : κ) (value : β)
    (h : find? pairs key = none) :
    find? (pairs ++ [(key, value)]) other =
      if other = key then some value else find? pairs other := by
  -- a search goes through the old pairs first
  have happend : find? (pairs ++ [(key, value)]) other =
      (find? pairs other).or (find? [(key, value)] other) := by
    simp only [find?, List.find?_append]
    cases pairs.find? (fun p => p.1 == other) <;> rfl
  rw [happend]
  by_cases hother : other = key
  · subst hother
    rw [h, if_pos rfl, find?_cons_self]
    rfl
  · rw [if_neg hother, find?_cons_of_ne _ _ (Ne.symm hother)]
    exact Option.or_none

/-- Taking a key out leaves the other keys. -/
theorem find?_filter_ne [DecidableEq κ] (pairs : List (κ × β)) (key other : κ) :
    find? (pairs.filter fun p => p.1 != key) other =
      if other = key then none else find? pairs other := by
  induction pairs with
  | nil => split <;> rfl
  | cons head rest ih =>
    obtain ⟨k, v⟩ := head
    by_cases hk : k = key
    · subst hk
      rw [List.filter_cons_of_neg (by simp), ih]
      by_cases hother : other = k
      · rw [if_pos hother, if_pos hother]
      · rw [if_neg hother, if_neg hother, find?_cons_of_ne _ _ (Ne.symm hother)]
    · rw [List.filter_cons_of_pos (by simp [hk])]
      by_cases hother : k = other
      · subst hother
        rw [find?_cons_self, if_neg hk, find?_cons_self]
      · rw [find?_cons_of_ne _ _ hother, ih, find?_cons_of_ne _ _ hother]

end Stowage.Assoc
