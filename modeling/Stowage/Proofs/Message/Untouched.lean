import Mathlib.Data.List.Forall2
import Stowage.Proofs.Json.Reprint
import Stowage.Proofs.Message.Offloading
/-!
# Stowage — fields that offloading leaves in a message

Where one field of an object is replaced, the whole object is printed anew. A field that was not replaced
comes out as it was read: the same but for its numerals, each of which is read and printed again by itself
(`offload_reprints`). So a field keeps its numbers just if each of them is a whole number of 64 bits or the
shortest decimal of a binary64 number. Where nothing is replaced, the message stays as it is.
-/

namespace Stowage.Message

open Dialogue

/-- A backend took the field under a key. -/
def Taken (log : List Exchange) (key : String) : Prop :=
  ∃ (c : Candidate) (reference : Json),
    c.fieldPath = key ∧ (⟨.offload c, .ok (some reference)⟩ : Exchange) ∈ log

/-- `Untouched before after`: a member keeps its key, and its tree but for the numerals, which are read and
printed again. Of these, just the kept ones stand for the same number as before. -/
structure Untouched (before after : String × Json.Tree Json.Numeral) : Prop where
  reprinted : after.2 = before.2.map Json.Numeral.reprinted
  value_iff : ∀ n ∈ before.2.numbers, (n.reprinted.value = n.value ↔ n.Kept)

section

variable {fields : Json.Members} {reply : String → Option Json} {threshold : Nat}

theorem taken_offers {key : String} :
    Taken (offers reply fields) key ↔ ∃ field ∈ fields, field.1 = key ∧ (reply key).isSome = true := by
  constructor
  · rintro ⟨c, reference, rfl, hmem⟩
    obtain ⟨field, hfield, heq⟩ := List.mem_map.mp hmem
    generalize hreply : reply field.1 = answer at heq
    cases heq
    exact ⟨field, hfield, rfl, Option.isSome_iff_exists.mpr ⟨reference, hreply⟩⟩
  · rintro ⟨field, hfield, rfl, hsome⟩
    obtain ⟨reference, hreply⟩ := Option.isSome_iff_exists.mp hsome
    refine ⟨⟨field.1, field.2.print, some field.2⟩, reference, rfl, List.mem_map.mpr ⟨field, hfield, ?_⟩⟩
    rw [hreply]
    rfl

/-- A field that was not taken is left as it is. -/
theorem rewritten_eq_of_not_taken {field : String × Json} (hfield : field ∈ fields)
    (h : ¬ Taken (offers reply (oversized threshold fields)) field.1) :
    (if threshold < field.2.print.length then (reply field.1).getD field.2 else field.2) = field.2 := by
  split
  · next hsize =>
    have hnone : ¬ (reply field.1).isSome = true := fun hsome =>
      h (taken_offers.mpr ⟨field, List.mem_filter.mpr ⟨hfield, decide_eq_true hsize⟩, rfl, hsome⟩)
    rw [Option.not_isSome_iff_eq_none.mp hnone, Option.getD_none]
  · rfl

end

section

variable {m : Type → Type} {backend : Backend m} {message out : Bytes} {fields : Json.Members}
  {log : List Exchange}

/-- The trees of the fields that are read, each with what it is read as. -/
theorem exists_settled (hread : Json.read? message = some (.object fields)) :
    ∃ whole members, Json.Spells message whole ∧ whole.settled = .object members ∧
      List.Forall₂ (fun before field => (∀ n ∈ before.2.numbers, n.WellFormed) ∧ before.1 = field.1 ∧
        before.2.map Json.Numeral.number? = (Json.Tree.ofJson field.2).map some) members fields := by
  obtain ⟨whole, hspells, htree⟩ := Json.exists_spells hread
  have hnumbers := whole.settled_read? _ htree
  rw [Json.Tree.ofJson_object, Json.Tree.map_object] at hnumbers
  obtain ⟨members, hsettled, hmembers⟩ := Json.Tree.map_eq_object hnumbers
  refine ⟨whole, members, hspells, hsettled, ?_⟩
  -- the numerals of a member are among those of the whole text, which are well formed
  have hwell : ∀ before ∈ members, ∀ n ∈ before.2.numbers, n.WellFormed := by
    intro before hbefore n hn
    refine hspells.wellFormed n (Json.Tree.mem_numbers_settled n ?_)
    rw [hsettled, Json.Tree.numbers]
    exact List.mem_flatMap.mpr ⟨before, hbefore, hn⟩
  -- read as numbers, the settled members and the fields agree pair by pair
  have hall : List.Forall₂ (fun before field => before.1 = field.1 ∧
      before.2.map Json.Numeral.number? = (Json.Tree.ofJson field.2).map some) members fields := by
    rw [← List.forall₂_eq_eq_eq, Json.mapMembers, Json.mapMembers, Json.mapMembers, List.map_map,
      List.forall₂_map_left_iff, List.forall₂_map_right_iff] at hmembers
    exact hmembers.imp fun before field heq => ⟨congrArg Prod.fst heq, congrArg Prod.snd heq⟩
  exact (List.forall₂_and_left _ _).mpr ⟨hwell, hall⟩

end

/-- Object with a number that takes more than 64 bits, and a text. -/
def wide : Bytes := utf8 "\x7b\"a\":18446744073709551616,\"b\":\"xyz\"\x7d"

/-- The numeral of that number. -/
def wideNumeral : Json.Numeral := ⟨false, utf8 "18446744073709551616", [], none⟩

theorem spells_wide :
    Json.Spells wide (.object [("a", .number wideNumeral), ("b", .string "xyz")]) := by
  have ha : ∀ rest, Json.text (97 :: 34 :: rest) = .ok ("a", rest) := Json.text_printString "a"
  have hb : ∀ rest, Json.text (98 :: 34 :: rest) = .ok ("b", rest) := Json.text_printString "b"
  have hxyz : ∀ rest, Json.text (120 :: 121 :: 122 :: 34 :: rest) = .ok ("xyz", rest) :=
    Json.text_printString "xyz"
  have hdigits : ∀ b ∈ wideNumeral.whole, Json.isDigit b = true := by decide +kernel
  have hwell : wideNumeral.WellFormed := ⟨by decide, hdigits, nofun, nofun, nofun⟩
  have hnumber : ∀ rest, Json.Spelled 0 (wideNumeral.text ++ 44 :: rest) (.number wideNumeral)
      (44 :: rest) :=
    fun rest => ⟨49, _, rfl, wideNumeral, hwell, .comma rest, rfl, rfl⟩
  have hstring : Json.Spelled 0 [34, 120, 121, 122, 34, 125] (.string "xyz") [125] :=
    ⟨34, _, rfl, "xyz", hxyz _, rfl⟩
  have hwide : wide = 123 :: 34 :: 97 :: 34 :: 58 :: (wideNumeral.text ++
      [44, 34, 98, 34, 58, 34, 120, 121, 122, 34, 125]) := by decide
  rw [hwide]
  refine ⟨1, [], ⟨123, _, rfl, Json.Spelled 0, _, rfl, ?_, rfl⟩, rfl⟩
  refine .first rfl (.intro (ha _) rfl (hnumber _)) ?_
  exact .comma rfl rfl (.intro (hb _) rfl hstring) (.close rfl)

end Stowage.Message
