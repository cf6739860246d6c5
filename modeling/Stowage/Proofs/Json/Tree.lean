import Mathlib.Data.List.Basic
import Stowage.Proofs.Json.Value
/-!
# Stowage — JSON values with other numbers

A tree is a JSON value whose numbers may be anything: numerals, rational numbers, or the numbers that are
read (`Tree.ofJson`). Two readings of the numbers of a tree make the same tree just if they agree on every
number in it (`Tree.map_eq_map_iff`). A tree that stands in a text may have members under the same key;
what counts is what is left when later members replace earlier ones (`Tree.settled`).
-/

namespace Stowage.Json

/-- A member is smaller than the members together, so a recursion may go into it. -/
theorem sizeOf_snd_lt {α : Type} [SizeOf α] {members : List (String × α)} {m : String × α}
    (h : m ∈ members) : sizeOf m.2 < 1 + sizeOf members := by
  have hmem := List.sizeOf_lt_of_mem h
  obtain ⟨key, a⟩ := m
  rw [Prod.mk.sizeOf_spec] at hmem
  show sizeOf a < 1 + sizeOf members
  omega

/-- A JSON value with numbers of some other type. -/
inductive Tree (ν : Type) where
  | null
  | bool (b : Bool)
  | number (n : ν)
  | string (s : String)
  | array (items : List (Tree ν))
  | object (members : List (String × Tree ν))

theorem sizeOf_member_lt {members : Members} {m : String × Json} (h : m ∈ members) :
    sizeOf m.2 < sizeOf (Json.object members) := by
  rw [Json.object.sizeOf_spec]
  exact sizeOf_snd_lt h

theorem Tree.sizeOf_member_lt {ν : Type} {members : List (String × Tree ν)} {m : String × Tree ν}
    (h : m ∈ members) : sizeOf m.2 < sizeOf (Tree.object members) := by
  rw [Tree.object.sizeOf_spec]
  exact sizeOf_snd_lt h

/-- What holds of every number holds of the numbers in every value. -/
theorem allNumbers_of_forall {P : Number → Prop} (h : ∀ n, P n) : ∀ v : Json, AllNumbers P v
  | .null => .null
  | .bool b => .bool b
  | .number n => .number n (h n)
  | .string s => .string s
  | .array items => .array items fun v _ => allNumbers_of_forall h v
  | .object members => .object members fun m _ => allNumbers_of_forall h m.2
decreasing_by
  · decreasing_tactic
  · exact sizeOf_member_lt ‹_›

/-! ## Collected members

Collecting members looks at keys only. So it makes no difference whether the values are changed before
or after. -/

section

variable {α β : Type}

/-- Members with something else under their keys. -/
def mapMembers (f : α → β) (members : List (String × α)) : List (String × β) :=
  members.map fun m => (m.1, f m.2)

/-- A member can be put in before or after the values are changed. -/
theorem mapMembers_insertMember (f : α → β) (members : List (String × α)) (key : String) (a : α) :
    mapMembers f (insertMember members key a) = insertMember (mapMembers f members) key (f a) := by
  rw [insertMember, insertMember, mapMembers, mapMembers, List.any_map]
  show _ = if (members.any fun m => m.1 == key) = true then _ else _
  split
  · rw [List.map_map, List.map_map]
    refine List.map_congr_left fun m _ => ?_
    simp only [Function.comp_apply]
    split <;> rfl
  · rw [List.map_append]
    rfl

/-- Members are collected by their keys alone. -/
theorem mapMembers_collect (f : α → β) (members : List (String × α)) :
    mapMembers f (collect members) = collect (mapMembers f members) := by
  rw [collect, collect]
  suffices h : ∀ collected : List (String × α),
      mapMembers f (members.foldl (fun collected m => insertMember collected m.1 m.2) collected) =
        (mapMembers f members).foldl (fun collected m => insertMember collected m.1 m.2)
          (mapMembers f collected) from h []
  induction members with
  | nil => exact fun _ => rfl
  | cons m members ih =>
    intro collected
    rw [List.foldl_cons, ih, mapMembers_insertMember]
    rfl

end

namespace Tree

variable {ν μ ξ : Type}

/-- Induction over items and members. -/
@[elab_as_elim, induction_eliminator]
theorem induct {motive : Tree ν → Prop} (null : motive .null) (bool : ∀ b, motive (.bool b))
    (number : ∀ n, motive (.number n)) (string : ∀ s, motive (.string s))
    (array : ∀ items, (∀ t ∈ items, motive t) → motive (.array items))
    (object : ∀ members : List (String × Tree ν), (∀ m ∈ members, motive m.2) → motive (.object members))
    (t : Tree ν) : motive t :=
  match t with
  | .null => null
  | .bool b => bool b
  | .number n => number n
  | .string s => string s
  | .array items => array items fun t _ => induct null bool number string array object t
  | .object members => object members fun m _ => induct null bool number string array object m.2
decreasing_by
  · decreasing_tactic
  · exact sizeOf_member_lt ‹_›

/-- The tree with other numbers in their places. -/
def map (f : ν → μ) : Tree ν → Tree μ
  | null => .null
  | bool b => .bool b
  | number n => .number (f n)
  | string s => .string s
  | array items => .array (items.map (map f))
  | object members => .object (members.map fun m => (m.1, map f m.2))
decreasing_by
  · decreasing_tactic
  · exact sizeOf_member_lt ‹_›

/-- The numbers in a tree, in order. -/
def numbers : Tree ν → List ν
  | number n => [n]
  | array items => items.flatMap numbers
  | object members => members.flatMap fun m => numbers m.2
  | _ => []
decreasing_by
  · decreasing_tactic
  · exact sizeOf_member_lt ‹_›

/-- How deep arrays and objects stand in each other. -/
def depth : Tree ν → Nat
  | array items => (items.map depth).foldr max 0 + 1
  | object members => (members.map fun m => depth m.2).foldr max 0 + 1
  | _ => 0
decreasing_by
  · decreasing_tactic
  · exact sizeOf_member_lt ‹_›

/-- The tree that is left when later members replace earlier ones of the same key. -/
def settled : Tree ν → Tree ν
  | array items => .array (items.map settled)
  | object members => .object (collect (members.map fun m => (m.1, settled m.2)))
  | t => t
decreasing_by
  · decreasing_tactic
  · exact sizeOf_member_lt ‹_›

/-- A JSON value as a tree. -/
def ofJson : Json → Tree Number
  | .null => null
  | .bool b => bool b
  | .number n => number n
  | .string s => string s
  | .array items => array (items.map ofJson)
  | .object members => object (members.map fun m => (m.1, ofJson m.2))
decreasing_by
  · decreasing_tactic
  · exact Json.sizeOf_member_lt ‹_›

/-! ## Other numbers

The numbers of a tree can be exchanged without touching anything else, and a tree is known by its
numbers and its outline. -/

theorem map_object (f : ν → μ) (members : List (String × Tree ν)) :
    (object members).map f = .object (mapMembers (map f) members) := by
  rw [map, mapMembers]

theorem settled_object (members : List (String × Tree ν)) :
    (object members).settled = .object (collect (mapMembers settled members)) := by
  rw [settled, mapMembers]

theorem ofJson_object (members : Members) :
    ofJson (.object members) = .object (mapMembers ofJson members) := by
  rw [ofJson, mapMembers]

theorem map_map (f : ν → μ) (g : μ → ξ) (t : Tree ν) : (t.map f).map g = t.map fun n => g (f n) := by
  induction t with
  | null => simp only [map]
  | bool b => simp only [map]
  | number n => simp only [map]
  | string s => simp only [map]
  | array items ih =>
    simp only [map, List.map_map]
    exact congrArg _ (List.map_congr_left ih)
  | object members ih =>
    simp only [map, List.map_map]
    exact congrArg _ (List.map_congr_left fun m hm => Prod.ext rfl (ih m hm))

theorem numbers_map (f : ν → μ) (t : Tree ν) : (t.map f).numbers = t.numbers.map f := by
  induction t with
  | null => simp [map, numbers]
  | bool b => simp [map, numbers]
  | number n => simp [map, numbers]
  | string s => simp [map, numbers]
  | array items ih =>
    simp only [map, numbers, List.flatMap_map, List.map_flatMap]
    exact List.flatMap_congr ih
  | object members ih =>
    simp only [map, numbers, List.flatMap_map, List.map_flatMap]
    exact List.flatMap_congr ih

/-- **Two readings of the numbers** make the same tree if they agree on every number in it, and only
then. -/
theorem map_eq_map_iff (f g : ν → μ) (t : Tree ν) : t.map f = t.map g ↔ ∀ n ∈ t.numbers, f n = g n := by
  -- induction on the tree; an array or an object is the same if what stands in it is
  induction t with
  | null => simp [map, numbers]
  | bool b => simp [map, numbers]
  | number n => simp [map, numbers]
  | string s => simp [map, numbers]
  | array items ih =>
    rw [map, map, numbers, array.injEq, List.map_inj_left]
    simp only [List.mem_flatMap]
    constructor
    · rintro h n ⟨t, ht, hn⟩
      exact (ih t ht).mp (h t ht) n hn
    · exact fun h t ht => (ih t ht).mpr fun n hn => h n ⟨t, ht, hn⟩
  | object members ih =>
    rw [map, map, numbers, object.injEq, List.map_inj_left]
    simp only [List.mem_flatMap]
    constructor
    · rintro h n ⟨m, hm, hn⟩
      exact (ih m hm).mp (Prod.ext_iff.mp (h m hm)).2 n hn
    · exact fun h m hm => Prod.ext rfl ((ih m hm).mpr fun n hn => h n ⟨m, hm, hn⟩)

/-- No number is left that was not there. -/
theorem mem_numbers_settled {t : Tree ν} : ∀ n ∈ t.settled.numbers, n ∈ t.numbers := by
  induction t with
  | null => simp [settled]
  | bool b => simp [settled]
  | number n => simp [settled]
  | string s => simp [settled]
  | array items ih =>
    simp only [settled, numbers, List.flatMap_map, List.mem_flatMap]
    rintro n ⟨t, ht, hn⟩
    exact ⟨t, ht, ih t ht n hn⟩
  | object members ih =>
    rw [settled_object]
    simp only [numbers, List.mem_flatMap]
    rintro n ⟨m, hm, hn⟩
    obtain ⟨p, hp, hsettled⟩ := mem_collect hm
    obtain ⟨q, hq, rfl⟩ := List.mem_map.mp hp
    rw [← hsettled] at hn
    exact ⟨q, hq, ih q hq n hn⟩

/-- A tree with other numbers that is an object was one. -/
theorem map_eq_object {f : ν → μ} {t : Tree ν} {ms : List (String × Tree μ)} (h : t.map f = .object ms) :
    ∃ members, t = .object members ∧ mapMembers (map f) members = ms := by
  cases t with
  | object members =>
    rw [map_object] at h
    exact ⟨members, rfl, object.inj h⟩
  | _ => simp [map] at h

/-! ## Depth

How deep a tree is does not depend on its numbers. For values it is the bound that `Nested` gives. -/

theorem foldr_max_le_iff {d : Nat} {ns : List Nat} : ns.foldr max 0 ≤ d ↔ ∀ n ∈ ns, n ≤ d := by
  induction ns with
  | nil => simp
  | cons n ns ih => rw [List.foldr_cons, Nat.max_le, ih, List.forall_mem_cons]

/-- An array is one level deeper than its items. -/
theorem depth_array_le {items : List (Tree ν)} {d : Nat} :
    (array items).depth ≤ d + 1 ↔ ∀ t ∈ items, t.depth ≤ d := by
  rw [depth, Nat.add_le_add_iff_right, foldr_max_le_iff, List.forall_mem_map]

/-- An object is one level deeper than the values of its members. -/
theorem depth_object_le {members : List (String × Tree ν)} {d : Nat} :
    (object members).depth ≤ d + 1 ↔ ∀ m ∈ members, m.2.depth ≤ d := by
  rw [depth, Nat.add_le_add_iff_right, foldr_max_le_iff, List.forall_mem_map]

/-- Changing the numbers of a tree does not change its depth. -/
theorem depth_map (f : ν → μ) (t : Tree ν) : (t.map f).depth = t.depth := by
  induction t with
  | null => simp only [map, depth]
  | bool b => simp only [map, depth]
  | number n => simp only [map, depth]
  | string s => simp only [map, depth]
  | array items ih =>
    simp only [map, depth, List.map_map]
    exact congrArg (fun ns => List.foldr max 0 ns + 1) (List.map_congr_left ih)
  | object members ih =>
    simp only [map, depth, List.map_map]
    exact congrArg (fun ns => List.foldr max 0 ns + 1) (List.map_congr_left ih)

end Tree

/-- A nested value is a tree of that depth. -/
theorem Nested.depth_le {d : Nat} {v : Json} (h : Nested d v) : (Tree.ofJson v).depth ≤ d := by
  induction h with
  | null => simp [Tree.ofJson, Tree.depth]
  | bool => simp [Tree.ofJson, Tree.depth]
  | number => simp [Tree.ofJson, Tree.depth]
  | string => simp [Tree.ofJson, Tree.depth]
  | array d items _ ih =>
    rw [Tree.ofJson, Tree.depth_array_le, List.forall_mem_map]
    exact ih
  | object d members _ _ ih =>
    rw [Tree.ofJson, Tree.depth_object_le, List.forall_mem_map]
    exact ih

/-- A value with distinct keys nests no deeper than its tree is. -/
theorem Nested.of_depth_le {d deeper : Nat} {v : Json} (h : Nested deeper v)
    (hdepth : (Tree.ofJson v).depth ≤ d) : Nested d v := by
  induction h generalizing d with
  | null => exact .null d
  | bool _ b => exact .bool d b
  | number _ n => exact .number d n
  | string _ s => exact .string d s
  | array _ items _ ih =>
    cases d with
    | zero => simp [Tree.ofJson, Tree.depth] at hdepth
    | succ d =>
      rw [Tree.ofJson, Tree.depth_array_le, List.forall_mem_map] at hdepth
      exact .array d items fun v hv => ih v hv (hdepth v hv)
  | object _ members hkeys _ ih =>
    cases d with
    | zero => simp [Tree.ofJson, Tree.depth] at hdepth
    | succ d =>
      rw [Tree.ofJson, Tree.depth_object_le, List.forall_mem_map] at hdepth
      exact .object d members hkeys fun m hm => ih m hm (hdepth m hm)

end Stowage.Json
