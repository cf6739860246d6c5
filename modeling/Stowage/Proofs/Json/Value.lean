import Stowage.Json.Value
import Stowage.Proofs.Assoc
import Stowage.Proofs.Json.Number
/-!
# Stowage — well-formed JSON values

What can be said of a value without its text: `Nested` bounds how deep arrays and objects stand in
each other and says that the keys of every object are distinct; `AllNumbers` says something of every
number in a value. Members are an association list, in which later ones replace earlier ones of the same
key (`collect`), so that nothing changes where keys are distinct.
-/

namespace Stowage.Json

/-! ## Collected members

Members are kept in the order in which their keys were first written. A later value takes the place of
an earlier one, so looking up gives the last. -/

section

variable {α : Type} {members : List (String × α)} {key : String} {a : α} {m : String × α}

/-- Puts something under a key. A key that is already there keeps its place. -/
def insertMember (members : List (String × α)) (key : String) (a : α) : List (String × α) :=
  if members.any fun m => m.1 == key then members.map fun m => if m.1 == key then (key, a) else m
  else members ++ [(key, a)]

/-- The members that remain when later ones replace earlier ones of the same key. -/
def collect (members : List (String × α)) : List (String × α) :=
  members.foldl (fun collected m => insertMember collected m.1 m.2) []

/-- What stands among the members after one more is put in was there before or is the new one. -/
theorem mem_insertMember (h : m ∈ insertMember members key a) : m ∈ members ∨ m.2 = a := by
  unfold insertMember at h
  split at h
  · obtain ⟨old, hold, rfl⟩ := List.mem_map.mp h
    split
    · exact .inr rfl
    · exact .inl hold
  · rcases List.mem_append.mp h with hold | hnew
    · exact .inl hold
    · rw [List.mem_singleton] at hnew
      exact .inr (by rw [hnew])

/-- What stands under a key among collected members is one of the things that were collected. -/
theorem mem_collect (h : m ∈ collect members) : ∃ p ∈ members, p.2 = m.2 := by
  suffices hall : ∀ acc : List (String × α),
      m ∈ members.foldl (fun collected p => insertMember collected p.1 p.2) acc →
        m ∈ acc ∨ ∃ p ∈ members, p.2 = m.2 by
    rcases hall [] h with hnil | hp
    · cases hnil
    · exact hp
  clear h
  induction members with
  | nil => exact fun acc h => .inl h
  | cons p members ih =>
    intro acc h
    rcases ih _ h with hacc | ⟨q, hq, heq⟩
    · rcases mem_insertMember hacc with hold | hnew
      · exact .inl hold
      · exact .inr ⟨p, List.mem_cons_self .., hnew.symm⟩
    · exact .inr ⟨q, List.mem_cons_of_mem _ hq, heq⟩

end

namespace Members

/-- The keys of members, in order. -/
abbrev keys (members : Members) : List String := members.map Prod.fst

theorem get?_eq (members : Members) (key : String) :
    members.get? key = Assoc.find? members key := rfl

theorem any_key_iff (members : Members) (key : String) :
    (members.any fun m => m.1 == key) = true ↔ key ∈ members.keys := by
  simp [keys]

/-- A key that is there keeps its place, a new one comes last. -/
theorem keys_insert (members : Members) (key : String) (value : Json) :
    (members.insert key value).keys =
      if key ∈ members.keys then members.keys else members.keys ++ [key] := by
  unfold insert
  by_cases hin : key ∈ members.keys
  · rw [if_pos ((any_key_iff members key).mpr hin), if_pos hin, keys, List.map_map]
    refine List.map_congr_left fun m _ => ?_
    simp only [Function.comp_apply]
    split
    · next h => exact (beq_iff_eq.mp h).symm
    · rfl
  · rw [if_neg fun h => hin ((any_key_iff members key).mp h), if_neg hin, keys, List.map_append]
    rfl

theorem insert_of_notMem {members : Members} {key : String} (value : Json)
    (h : key ∉ members.keys) : members.insert key value = members ++ [(key, value)] := by
  unfold insert
  rw [if_neg fun hany => h ((any_key_iff members key).mp hany)]

/-- Putting a member in keeps the keys distinct. -/
theorem nodup_insert {members : Members} (key : String) (value : Json)
    (h : members.keys.Nodup) : (members.insert key value).keys.Nodup := by
  rw [keys_insert]
  split
  · exact h
  · next hnew =>
    rw [List.nodup_append]
    refine ⟨h, by simp, fun a ha b hb => ?_⟩
    rw [List.mem_singleton] at hb
    subst hb
    rintro rfl
    exact hnew ha

/-- Collected members have distinct keys. -/
theorem nodup_ofList (pairs : List (String × Json)) : (ofList pairs).keys.Nodup := by
  suffices h : ∀ acc : Members, acc.keys.Nodup →
      (pairs.foldl (fun members p => members.insert p.1 p.2) acc).keys.Nodup from h [] .nil
  induction pairs with
  | nil => exact fun acc h => h
  | cons p pairs ih => exact fun acc h => ih _ (nodup_insert p.1 p.2 h)

theorem ofList_eq_collect (pairs : List (String × Json)) : ofList pairs = collect pairs := rfl

/-- Members with distinct keys are collected as they are. -/
theorem ofList_eq_self {pairs : List (String × Json)} (h : (keys pairs).Nodup) :
    ofList pairs = pairs := by
  -- stated for any members collected so far: none of the keys to come is among them
  suffices hall : ∀ acc : Members, (acc ++ pairs).keys.Nodup →
      pairs.foldl (fun members p => members.insert p.1 p.2) acc = acc ++ pairs from hall [] h
  clear h
  induction pairs with
  | nil => exact fun acc _ => (List.append_nil acc).symm
  | cons p pairs ih =>
    intro acc hnodup
    have hnew : p.1 ∉ acc.keys := by
      intro hin
      rw [keys, List.map_append, List.nodup_append] at hnodup
      exact hnodup.2.2 p.1 hin p.1 (by simp) rfl
    rw [List.foldl_cons, insert_of_notMem p.2 hnew, ih _ (by simpa using hnodup),
      List.append_assoc]
    rfl

end Members

/-! ## Nesting -/

/-- `Nested depth value`: at most `depth` arrays and objects stand in each other, and the keys of every
object are distinct. -/
inductive Nested : Nat → Json → Prop where
  | null (depth : Nat) : Nested depth .null
  | bool (depth : Nat) (b : Bool) : Nested depth (.bool b)
  | number (depth : Nat) (n : Number) : Nested depth (.number n)
  | string (depth : Nat) (s : String) : Nested depth (.string s)
  | array (depth : Nat) (items : List Json) (hitems : ∀ v ∈ items, Nested depth v) :
      Nested (depth + 1) (.array items)
  | object (depth : Nat) (members : Members) (hkeys : members.keys.Nodup)
      (hmembers : ∀ m ∈ members, Nested depth m.2) : Nested (depth + 1) (.object members)

theorem Nested.mono {depth deeper : Nat} {value : Json} (h : Nested depth value)
    (hle : depth ≤ deeper) : Nested deeper value := by
  induction h generalizing deeper with
  | null => exact .null deeper
  | bool _ b => exact .bool deeper b
  | number _ n => exact .number deeper n
  | string _ s => exact .string deeper s
  | array depth items _ ih =>
    obtain ⟨k, rfl⟩ : ∃ k, deeper = k + 1 := ⟨deeper - 1, by omega⟩
    exact .array k items fun v hv => ih v hv (by omega)
  | object depth members hkeys _ ih =>
    obtain ⟨k, rfl⟩ : ∃ k, deeper = k + 1 := ⟨deeper - 1, by omega⟩
    exact .object k members hkeys fun m hm => ih m hm (by omega)

/-! ## Numbers -/

/-- `AllNumbers P value`: every number in a value satisfies `P`. -/
inductive AllNumbers (P : Number → Prop) : Json → Prop where
  | null : AllNumbers P .null
  | bool (b : Bool) : AllNumbers P (.bool b)
  | number (n : Number) (hn : P n) : AllNumbers P (.number n)
  | string (s : String) : AllNumbers P (.string s)
  | array (items : List Json) (hitems : ∀ v ∈ items, AllNumbers P v) : AllNumbers P (.array items)
  | object (members : Members) (hmembers : ∀ m ∈ members, AllNumbers P m.2) :
      AllNumbers P (.object members)

theorem AllNumbers.item {P : Number → Prop} {items : List Json} (h : AllNumbers P (.array items))
    {v : Json} (hv : v ∈ items) : AllNumbers P v := by
  cases h with
  | array _ hitems => exact hitems v hv

theorem AllNumbers.member {P : Number → Prop} {members : Members}
    (h : AllNumbers P (.object members)) {m : String × Json} (hm : m ∈ members) :
    AllNumbers P m.2 := by
  cases h with
  | object _ hmembers => exact hmembers m hm

theorem AllNumbers.mono {P Q : Number → Prop} {v : Json} (h : AllNumbers P v)
    (himp : ∀ n, P n → Q n) : AllNumbers Q v := by
  induction h with
  | null => exact .null
  | bool b => exact .bool b
  | number n hn => exact .number n (himp n hn)
  | string s => exact .string s
  | array items _ ih => exact .array items ih
  | object members _ ih => exact .object members ih

/-- Every number in a value is a whole number of the signed or unsigned 64-bit range. -/
abbrev IsWhole (value : Json) : Prop := AllNumbers Number.IsWhole value

end Stowage.Json
