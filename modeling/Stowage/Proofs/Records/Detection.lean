import Stowage.Proofs.Json.Fields
import Stowage.Proofs.Record
/-!
# Stowage — records detected in values and in texts

Whether a value is a record is looked up in the value; whether a text is one is read from the text,
without its other members. On texts of values both say the same, but for two kinds of them
(`isRecordText_agrees`). The magic number alone in an array is read as a record whose members are
written in their order. An object that writes the key of the magic number again is refused, while in
its value the last number stands.
-/

namespace Stowage.Record

open Json

/-- What the shape of the magic number reads from a value. -/
def magicSlot? (v : Json) : Option Slot := (optionally toNumber? v).map Slot.number

/-- Whether what was read is the magic number. -/
def showsMagic : Option (List Slot) → Bool
  | some [.number (some n)] => isMagic n
  | _ => false

/-- The member of the shape of the magic number. -/
def magicMember : Member where
  key := "magic"
  read := fun bytes => (optional (anyNumber "f64") bytes).map fun r => (.number r.1, r.2)
  absent := some (.number none)

theorem members_magicShape : magicShape.members = [magicMember] := rfl

theorem judges_magic : Judges magicMember.read magicSlot? :=
  judges_map (judges_optional (judges_anyNumber "f64")) Slot.number

theorem isRecordText_eq (raw : Bytes) :
    isRecordText raw = showsMagic (readWith magicShape.read raw).toOption := by
  rw [isRecordText]
  cases readWith magicShape.read raw with
  | error fault => rfl
  | ok slots =>
    rw [toOption_ok]
    unfold showsMagic
    -- both look for a number as the only slot
    split <;> split <;> simp_all

/-- The magic number is read from exactly one value. -/
theorem showsMagic_judgeValues (values : List Json) :
    showsMagic (magicMember.judgeValues magicSlot? values) = true ↔
      ∃ n, values = [.number n] ∧ isMagic n = true := by
  match values with
  | [] => simp [Member.judgeValues, magicMember, showsMagic]
  | [v] =>
    cases v with
    | number n => simp [Member.judgeValues, magicSlot?, optionally, toNumber?, showsMagic]
    | _ => simp [Member.judgeValues, magicSlot?, optionally, toNumber?, showsMagic]
  | _ :: _ :: _ => simp [Member.judgeValues, showsMagic]

theorem isRecord_eq (value : Json) : isRecord value = isMagicMember (value.get? "magic") := rfl

/-- The magic number alone in an array. -/
def IsMagicList (v : Json) : Prop := ∃ n, v = .array [.number n] ∧ isMagic n = true

/-- How often the text of an object writes the key of the magic number. -/
def timesWritten (raw : Bytes) : Nat := (Members.valuesOf (writtenMembers raw) "magic").length

section

variable {raw : Bytes} {values : List Json} {ms : Members}

/-- The text of an array is a record if its only item is the magic number. -/
theorem isRecordText_array (h : read? raw = some (.array values)) :
    isRecordText raw = true ↔ IsMagicList (.array values) := by
  have hread := Shape.toOption_readWith members_magicShape judges_magic h
  rw [isRecordText_eq, hread, showsMagic_judgeValues]
  simp [IsMagicList]

/-- The last number that is written decides for the value. -/
theorem isRecord_object (h : read? raw = some (.object ms)) :
    isRecord (.object ms) =
      isMagicMember (Members.valuesOf (writtenMembers raw) "magic").getLast? := by
  rw [isRecord_eq, Json.get?, read?_object h, Members.get?_ofList]

/-- The text of an object is a record if its value is one and the magic number is written once. -/
theorem isRecordText_object (h : read? raw = some (.object ms)) :
    isRecordText raw = true ↔ isRecord (.object ms) = true ∧ timesWritten raw = 1 := by
  have hread := Shape.toOption_readWith members_magicShape judges_magic h
  rw [isRecordText_eq, hread, showsMagic_judgeValues, isRecord_object h, timesWritten]
  show (∃ n, Members.valuesOf (writtenMembers raw) "magic" = [.number n] ∧ _) ↔ _
  constructor
  · rintro ⟨n, hvalues, hmagic⟩
    rw [hvalues]
    exact ⟨hmagic, rfl⟩
  · rintro ⟨hrecord, htimes⟩
    obtain ⟨v, hvalues⟩ := List.length_eq_one_iff.mp htimes
    rw [hvalues] at hrecord ⊢
    cases v with
    | number n => exact ⟨n, rfl, hrecord⟩
    | _ => cases hrecord

/-- A value that is a record is an object, whose text writes the magic number. -/
theorem one_le_timesWritten {v : Json} (h : read? raw = some v) (hrecord : isRecord v = true) :
    1 ≤ timesWritten raw := by
  cases v with
  | object ms =>
    rw [isRecord_object h] at hrecord
    rw [timesWritten, Nat.one_le_iff_ne_zero]
    intro hnone
    rw [List.length_eq_zero_iff.mp hnone] at hrecord
    cases hrecord
  | _ => cases hrecord

/-- A text is a record if it is an array of the magic number, or an object that is one and writes the
magic number once. -/
theorem isRecordText_iff {v : Json} (h : read? raw = some v) :
    isRecordText raw = true ↔ IsMagicList v ∨ (isRecord v = true ∧ timesWritten raw = 1) := by
  cases v with
  | array values =>
    rw [isRecordText_array h]
    exact ⟨.inl, fun hlist => hlist.resolve_right fun hrecord => nomatch hrecord.1⟩
  | object ms =>
    rw [isRecordText_object h]
    refine ⟨.inr, fun hobject => hobject.resolve_left ?_⟩
    rintro ⟨n, hv, -⟩
    cases hv
  | _ =>
    rw [isRecordText_eq, Shape.toOption_readWith members_magicShape judges_magic h]
    refine ⟨nofun, ?_⟩
    rintro (⟨n, hv, -⟩ | ⟨hrecord, -⟩)
    · cases hv
    · cases hrecord

/-- An array is never a record among values. -/
theorem IsMagicList.not_isRecord {v : Json} (h : IsMagicList v) : isRecord v = false := by
  obtain ⟨n, rfl, -⟩ := h
  rfl

end

/-- **Both ways of telling a record** agree on the text of a value, but for these two: the text is a
record and its value is none if the magic number stands alone in an array, and the value is a record
and its text is none if the key of the magic number is written more than once. What is written for an
object are the members that its value collects. -/
theorem isRecordText_agrees {raw : Bytes} {v : Json} (h : Json.read? raw = some v) :
    (isRecordText raw = isRecord v ↔
      ¬ IsMagicList v ∧ ¬ (isRecord v = true ∧ 1 < timesWritten raw)) ∧
    (isRecordText raw = true ∧ isRecord v = false ↔ IsMagicList v) ∧
    (isRecordText raw = false ∧ isRecord v = true ↔ isRecord v = true ∧ 1 < timesWritten raw) ∧
    ∀ ms, v = .object ms → ms = Members.ofList (writtenMembers raw) := by
  have htext := isRecordText_iff h
  have htimes : isRecord v = true → 1 ≤ timesWritten raw := one_le_timesWritten h
  have hlist : IsMagicList v → isRecord v = false := IsMagicList.not_isRecord
  refine ⟨?_, ?_, ?_, fun ms hv => read?_object (hv ▸ h)⟩
  · rw [Bool.eq_iff_iff, htext]
    grind
  · rw [htext]
    grind
  · rw [← Bool.not_eq_true, htext]
    grind

/-- The number alone in an array, and the key of the number written twice. -/
theorem isRecordText_agrees_twice :
    (isRecordText (utf8 "[20200318]") = true ∧
      isRecord (.array [.number (.int 20200318)]) = false) ∧
    (isRecordText (utf8 "\x7b\"magic\":1,\"magic\":20200318\x7d") = false ∧
      isRecord (.object [("magic", .number (.int 20200318))]) = true) := by
  have hmagic : IsWhole (.number (.int 20200318)) := .number _ (.int _ (by decide) (by decide))
  have hone : IsWhole (.number (.int 1)) := .number _ (.int _ (by decide) (by decide))
  constructor
  -- a one-field record may stand in an array, which has no member of that name
  · have htext : utf8 "[20200318]" = (Json.array [.number (.int 20200318)]).print := by decide
    have hread : Json.read? (utf8 "[20200318]") = some (.array [.number (.int 20200318)]) := by
      rw [htext]
      exact read?_print (.array _ _ (by simp [Nested.number])) (.array _ (by simpa using hmagic))
    exact (isRecordText_agrees hread).2.1.mpr ⟨_, rfl, isMagic_magicNumber⟩
  -- the value keeps the last of the two members, the reader stops at the second
  · have htext : utf8 "\x7b\"magic\":1,\"magic\":20200318\x7d" =
        (Json.object [("magic", .number (.int 1)), ("magic", .number (.int 20200318))]).print := by
      decide
    obtain ⟨hread, hwritten⟩ :=
      @read?_printed [("magic", .number (.int 1)), ("magic", .number (.int 20200318))]
        (by simp [Nested.number]) (by simpa using ⟨hone, hmagic⟩)
    rw [← htext] at hread hwritten
    refine (isRecordText_agrees hread).2.2.1.mpr ⟨isMagic_magicNumber, ?_⟩
    rw [timesWritten, hwritten]
    decide

end Stowage.Record
