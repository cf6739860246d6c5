import Stowage.Proofs.Json.Likeness
import Stowage.Proofs.Message.Resolution
/-!
# Stowage — resolved messages that can be read

A payload is read by itself, as deep as the reader goes, and then put one level deeper into the message.
So what comes of resolving an object can be read just if every payload that is JSON leaves room for that
level, and then it is an object with the same keys (`resolve_readable`).
-/

namespace Stowage.Message

open Dialogue

/-- Every payload of a log that is JSON nests less deep than the reader goes. -/
def LeavesRoom (log : List Exchange) : Prop :=
  ∀ r payload, (⟨.rehydrate r, .ok payload⟩ : Exchange) ∈ log →
    ∀ v, Json.read? payload = some v → Json.Nested (Json.maxDepth - 1) v

/-! ## What a payload means

A payload that is JSON was read, so its value nests no deeper than the reader goes and has numbers that
can be read. A payload that is not means a string, which is neither deep nor has numbers. -/

namespace Means

variable {payload : Bytes} {value : Json}

/-- What a payload means nests no deeper than a reader goes. -/
theorem nested (h : Means payload value) : Json.Nested Json.maxDepth value := by
  cases h with
  | json hread => exact Json.read?_nested hread
  | text _ => exact .string _ _

/-- What a payload means has no numbers but those that can be read. -/
theorem readable (h : Means payload value) : Json.AllNumbers Json.Number.Readable value := by
  cases h with
  | json hread => exact Json.read?_readable hread
  | text _ => exact .string _

theorem nested_iff (h : Means payload value) {depth : Nat} :
    Json.Nested depth value ↔ ∀ v, Json.read? payload = some v → Json.Nested depth v := by
  cases h with
  | json hread =>
    rw [hread]
    constructor
    · rintro h v ⟨⟩
      exact h
    · exact fun h => h value rfl
  | text hread =>
    rw [hread]
    exact ⟨fun _ => nofun, fun _ => .string _ _⟩

end Means

/-! ## Restored fields -/

section

variable {recognize : Json → Except Failure (Option Reference)} {payload : String → Bytes}
  {meaning : String → Json} {fields : Json.Members}

/-- Restoring fields keeps their keys. -/
theorem keys_restored (recognize : Json → Except Failure (Option Reference))
    (meaning : String → Json) (fields : Json.Members) :
    Json.Members.keys (restored recognize meaning fields) = Json.Members.keys fields := by
  rw [Json.Members.keys, restored, List.map_map]
  rfl

/-- What holds of all fields holds of the restored ones if it holds of the values that were put there. -/
theorem forall_restored {P : Json → Prop} (h : ∀ field ∈ fields, P field.2) :
    (∀ field ∈ restored recognize meaning fields, P field.2) ↔
      ∀ field ∈ fields, ∀ r, referenceOf recognize field.2 = some r → P (meaning field.1) := by
  rw [restored, List.forall_mem_map]
  refine forall_congr' fun field => forall_congr' fun hfield => ?_
  cases hr : referenceOf recognize field.2 with
  | none => exact ⟨fun _ _ hsome => absurd hsome (Option.some_ne_none _).symm, fun _ => h field hfield⟩
  | some r => exact ⟨fun hvalue _ _ => hvalue, fun hvalue => hvalue r rfl⟩

/-- Payloads leave room for a level above them exactly if what is restored nests one level less than a
reader goes. -/
theorem leavesRoom_iff (hmeans : ∀ key, Means (payload key) (meaning key))
    (hnested : ∀ field ∈ fields, Json.Nested (Json.maxDepth - 1) field.2) :
    LeavesRoom (followed recognize payload fields) ↔
      ∀ field ∈ restored recognize meaning fields, Json.Nested (Json.maxDepth - 1) field.2 := by
  rw [forall_restored hnested]
  simp only [LeavesRoom, mem_followed, (hmeans _).nested_iff]
  constructor
  · exact fun h field hfield r hr => h r _ ⟨field, hfield, hr, rfl⟩
  · rintro h r _ ⟨field, hfield, hr, rfl⟩
    exact h field hfield r hr

/-- An object is one level deeper than its fields. -/
theorem nested_object_iff (hkeys : (Json.Members.keys fields).Nodup) {depth : Nat} :
    Json.Nested (depth + 1) (.object fields) ↔ ∀ field ∈ fields, Json.Nested depth field.2 := by
  constructor
  · intro h
    cases h with
    | object _ _ _ hall => exact hall
  · exact fun h => .object _ _ hkeys h

end

/-- **What comes of resolving an object** can be read just if the payloads leave room for it, and then it
is an object with the same keys in the same order. -/
theorem resolve_readable {m : Type → Type} {backend : Backend m} {message out : Bytes}
    {fields : Json.Members} {log : List Exchange}
    (hgoes : Goes (resolve backend.asking message) log (.ok out))
    (hread : Json.read? message = some (.object fields))
    (hplain : backend.recognize (.object fields) = .ok none) :
    ((∃ v, Json.read? out = some v) ↔ LeavesRoom log) ∧
      ∀ v, Json.read? out = some v →
        ∃ members, v = .object members ∧ Json.Members.keys members = Json.Members.keys fields := by
  cases resolution_of_goes hgoes with
  | notJson hread' =>
    rw [hread'] at hread
    cases hread
  | whole hread' hvalue =>
    cases hread.symm.trans hread'
    rw [hvalue] at hplain
    cases hplain
  | noObject hread' hvalue hobject =>
    cases hread.symm.trans hread'
    exact absurd rfl (hobject fields)
  | fields hread' hvalue hall payload meaning hmeans =>
    cases hread.symm.trans hread'
    obtain ⟨hkeys, hnested⟩ := Json.field_nested hread
    rw [← keys_restored backend.recognize meaning] at hkeys
    have hreadable : Json.AllNumbers Json.Number.Readable
        (.object (restored backend.recognize meaning fields)) := by
      have hall := Json.read?_readable hread
      refine .object _ ((forall_restored fun field hfield => hall.member hfield).mpr ?_)
      exact fun field _ _ _ => (hmeans field.1).readable
    -- each payload was read by itself, so the object is at most one level too deep
    have hdeep : Json.Nested (Json.maxDepth + 1)
        (.object (restored backend.recognize meaning fields)) := by
      refine (nested_object_iff hkeys).mpr ((forall_restored fun field hfield => ?_).mpr ?_)
      · exact (hnested field hfield).mono (Nat.sub_le ..)
      · exact fun field _ _ _ => (hmeans field.1).nested
    split
    · rw [leavesRoom_iff hmeans hnested, ← nested_object_iff hkeys]
      have hiff := Json.read?_print_isSome_iff hdeep hreadable
      refine ⟨hiff, fun v hv => ?_⟩
      rw [← keys_restored backend.recognize meaning]
      exact Json.keys_of_read?_print (hiff.mp ⟨v, hv⟩) hreadable hv
    · next hnone =>
      -- nothing was asked for, and the message is left as it is
      rw [followed_eq_nil (Bool.eq_false_iff.mpr hnone), hread]
      refine ⟨⟨fun _ _ _ hmem => absurd hmem List.not_mem_nil, fun _ => ⟨_, rfl⟩⟩, ?_⟩
      rintro v ⟨⟩
      exact ⟨fields, rfl, rfl⟩

/-- Arrays in each other, as deep as the reader goes. -/
def deep : Bytes := List.replicate Json.maxDepth 91 ++ List.replicate Json.maxDepth 93

/-- A short payload comes back under its key. A payload that is just not too deep to be read makes a
message that is. -/
theorem resolve_readable_echo :
    ∃ message : Bytes, Json.read? message = some (.object [("a", .string "x")]) ∧
      echo.recognize (.object [("a", .string "x")]) = .ok none ∧
      (∀ payload value, Means payload value →
        Goes (resolve echo.asking message) [⟨.rehydrate ⟨"x", 1, ""⟩, .ok payload⟩]
          (.ok (Json.object [("a", value)]).print)) ∧
      (∃ v, Json.read? (Json.object [("a", .number (.int 2))]).print = some v) ∧
      (∃ value, Json.read? deep = some value ∧
        Json.read? (Json.object [("a", value)]).print = none) ∧
      ¬ LeavesRoom [⟨.rehydrate ⟨"x", 1, ""⟩, .ok deep⟩] := by
  have hread := read?_of_text "a" "x"
  -- a payload of one byte leaves room, and its message is readable
  have htwo : Json.read? [50] = some (.number (.int 2)) :=
    Json.read?_print (.number _ _) (.number _ (.int 2 (by decide) (by decide)))
  have hshort : LeavesRoom [⟨.rehydrate ⟨"x", 1, ""⟩, .ok [50]⟩] := by
    intro r payload hmem v hv
    cases List.mem_singleton.mp hmem
    cases htwo.symm.trans hv
    exact .number _ _
  -- the deep payload is readable by itself, and not one level deeper
  obtain ⟨value, hdeep⟩ : ∃ value, Json.read? deep = some value :=
    Option.isSome_iff_exists.mp (by decide +kernel)
  have hnone : Json.read? (Json.object [("a", value)]).print = none := by
    rw [means_iff.mp (.json hdeep)]
    exact Option.isNone_iff_eq_none.mp (by decide +kernel)
  have hback := (resolve_readable (goes_echo "a" "x" (.json htwo)) hread rfl).1.mpr hshort
  refine ⟨_, hread, rfl, fun _ _ => goes_echo "a" "x", hback, ⟨value, hdeep, hnone⟩, ?_⟩
  intro hroom
  obtain ⟨v, hv⟩ := (resolve_readable (goes_echo "a" "x" (.json hdeep)) hread rfl).1.mpr hroom
  rw [hnone] at hv
  cases hv

end Stowage.Message
