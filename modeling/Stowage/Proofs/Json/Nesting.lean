import Stowage.Proofs.Json.Layout
import Stowage.Proofs.Json.Value
/-!
# Stowage — what the JSON reader gives

Whatever is read nests no deeper than the reader's depth and has distinct keys (`read?_nested`). Arrays
and objects only pass on what the reader of their items gives, so the step is `valueWith_cases`, which
says how a value can come about; `value_gives` goes from there to any depth.
-/

namespace Stowage.Json

/-- `Gives item P`: every value that the reader gives satisfies `P`. -/
def Gives (item : Reader Json) (P : Json → Prop) : Prop :=
  ∀ unread v rest, item unread = .ok (v, rest) → P v

section

variable {unread rest : Bytes}

/-- How a value can come about: it is neither an array nor an object, or its items were read. -/
theorem valueWith_cases {inner : Option (Reader Json)} {v : Json}
    (h : valueWith inner unread = .ok (v, rest)) :
    Nested 0 v ∨
      (∃ item bytes values, inner = some item ∧ ListAt item.Takes bytes values rest ∧
        v = .array values) ∨
      ∃ item bytes ms, inner = some item ∧ ObjectAt item.Takes bytes ms rest ∧
        v = .object (Members.ofList ms) := by
  obtain ⟨b, bytes, -, hat⟩ := valueAt_of_valueWith h
  cases hat with
  | null => exact .inl (.null 0)
  | true => exact .inl (.bool 0 true)
  | false => exact .inl (.bool 0 false)
  | minus => exact .inl (.number 0 _)
  | digit => exact .inl (.number 0 _)
  | string => exact .inl (.string 0 _)
  | array hinner hlist => exact .inr (.inl ⟨_, bytes, _, hinner, hlist, rfl⟩)
  | object hinner hobject => exact .inr (.inr ⟨_, bytes, _, hinner, hobject, rfl⟩)

end

/-- What holds of values that are neither arrays nor objects, and of arrays and objects if it holds of
their items one depth less, holds of every value that is read. Induction on the depth. -/
theorem value_gives {P : Nat → Json → Prop}
    (hscalar : ∀ depth v, Nested 0 v → P depth v)
    (harray : ∀ depth values, (∀ v ∈ values, P depth v) → P (depth + 1) (.array values))
    (hobject : ∀ depth ms, (Members.keys ms).Nodup → (∀ m ∈ ms, P depth m.2) →
      P (depth + 1) (.object ms)) :
    ∀ depth, Gives (value depth) (P depth) := by
  intro depth
  induction depth with
  | zero =>
    intro unread v rest h
    rcases valueWith_cases h with hnested | ⟨item, _, _, hinner, -⟩ |
      ⟨item, _, _, hinner, -⟩
    · exact hscalar 0 v hnested
    · cases hinner
    · cases hinner
  | succ depth ih =>
    intro unread v rest h
    rcases valueWith_cases h with hnested | ⟨item, bytes, values, hinner, hread, rfl⟩ |
      ⟨item, bytes, ms, hinner, hread, rfl⟩
    · exact hscalar (depth + 1) v hnested
    · cases hinner
      exact harray depth values (listAt_forall ih hread)
    · cases hinner
      -- later values may have replaced earlier ones, but every value was read
      refine hobject depth _ (Members.nodup_ofList ms) fun m hm => ?_
      obtain ⟨p, hp, hvalue⟩ := mem_collect hm
      exact hvalue ▸ objectAt_forall ih hread p hp

/-- A value read at a depth nests no deeper. -/
theorem value_nested : ∀ depth, Gives (value depth) (Nested depth) :=
  value_gives (fun depth _ hnested => hnested.mono (Nat.zero_le depth)) Nested.array Nested.object

/-- **Nesting.** A message that is JSON nests no deeper than the reader allows, with distinct keys. -/
theorem read?_nested {whole : Bytes} {v : Json} (h : read? whole = some v) : Nested maxDepth v := by
  obtain ⟨left, hread, -⟩ := read?_eq_some_iff.mp h
  exact value_nested maxDepth _ _ _ hread

/-- A field of an object that was read nests less deep than the object. -/
theorem field_nested {whole : Bytes} {fields : Members} (h : read? whole = some (.object fields)) :
    (Members.keys fields).Nodup ∧ ∀ field ∈ fields, Nested (maxDepth - 1) field.2 := by
  cases read?_nested h with
  | object _ _ hkeys hmembers => exact ⟨hkeys, hmembers⟩

end Stowage.Json
