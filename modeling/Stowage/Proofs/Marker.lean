import Mathlib.Tactic.Common
import Stowage.Backend.Remote
import Stowage.Proofs.Assoc
import Stowage.Proofs.Json.Shape
/-!
# Stowage — markers written and read

A marker is written in one way, `wireText`, and read in two: from a value, and as a record, straight from a
text. `Decoded` says, without the reader, what a value is read as: nothing, a marker with the members
that `Describes` asks for, or the fault of the first member that is unusable. `decoded_iff` says that the
reader of values does so, and `text_reads_back` that both readers bring back what was written.
-/

namespace Stowage.Marker

/-! ## Members

A marker is written as an object of four members. This is what has to be known of the object to print
it, to read it back, and to look its members up. -/

/-- The four members of a marker are told apart by their keys. -/
theorem nodup_keys (m : Marker) (chunked : Bool) : (m.members chunked).keys.Nodup := by
  have hkeys : [chunkedKey, refKey, totalSizeKey, fieldPathKey].Nodup := by decide
  exact hkeys

/-- Each member of a marker is found under its key. -/
theorem get?_toJson {m : Marker} {key : String} {value : Json}
    (h : (key, value) ∈ m.members true) : m.toJson.get? key = some value :=
  Assoc.find?_eq_some_of_mem (m.nodup_keys true) h

/-- A marker is flat: an object of scalars. -/
theorem nested_toJson (m : Marker) : Json.Nested 1 m.toJson := by
  refine .object 0 _ (m.nodup_keys true) fun member hmember => ?_
  simp only [members, List.mem_cons, List.not_mem_nil, or_false] at hmember
  rcases hmember with rfl | rfl | rfl | rfl
  · exact .bool 0 true
  · exact .string 0 m.ref
  · exact .number 0 _
  · exact .string 0 m.fieldPath

/-- Its one number is natural, so that a marker is printed and read without rounding. -/
theorem isWhole_toJson {m : Marker} (hsize : m.totalSize < Json.wordLimit) :
    Json.IsWhole m.toJson := by
  refine .object _ fun member hmember => ?_
  simp only [members, List.mem_cons, List.not_mem_nil, or_false] at hmember
  rcases hmember with rfl | rfl | rfl | rfl
  · exact .bool true
  · exact .string m.ref
  · exact .number _ (Json.Number.isWhole_natural hsize)
  · exact .string m.fieldPath

/-! ## What members say

One predicate for each member that is read, on what stands under its key. -/

inductive IdIs : Option Json → String → Prop where
  | text (id : String) (hne : id ≠ "") : IdIs (some (.string id)) id

/-- An id is a text that is not empty. -/
theorem idIs_iff {member : Option Json} {id : String} :
    IdIs member id ↔ member = some (.string id) ∧ id ≠ "" := by
  constructor
  · rintro ⟨_, hne⟩
    exact ⟨rfl, hne⟩
  · rintro ⟨rfl, hne⟩
    exact .text id hne

inductive SizeIs : Option Json → Nat → Prop where
  | word (size : Nat) (hlt : size < Json.wordLimit) : SizeIs (some (.number (.int size))) size

/-- A size is a natural number of 64 bits. -/
theorem sizeIs_iff {member : Option Json} {size : Nat} :
    SizeIs member size ↔ member = some (.number (.int size)) ∧ size < Json.wordLimit := by
  constructor
  · rintro ⟨_, hlt⟩
    exact ⟨rfl, hlt⟩
  · rintro ⟨rfl, hlt⟩
    exact .word size hlt

/-- A field path that is left out is empty, and so is one that is `null`. -/
inductive PathIs : Option Json → String → Prop where
  | missing : PathIs none ""
  | null : PathIs (some .null) ""
  | text (path : String) : PathIs (some (.string path)) path

/-- Why a member is no id. -/
inductive NoId : Option Json → BadReference → Prop where
  | missing : NoId none .missingId
  | empty : NoId (some (.string "")) .emptyId
  | notText (other : Json) (h : ∀ id, other ≠ .string id) : NoId (some other) .idNotText

section

variable {v : Json} {id path : String} {size : Nat} {why : BadReference}

/-- The id is taken exactly where there is one. -/
theorem refOf_eq_ok_iff : refOf v = .ok id ↔ IdIs (v.get? refKey) id := by
  unfold refOf
  constructor
  · intro h
    split at h
    · next text heq =>
      rw [heq]
      split at h
      · cases h
      · next hempty =>
        cases h
        exact .text _ fun hid => hempty (String.isEmpty_iff.mpr hid)
    · cases h
    · cases h
  · intro h
    generalize v.get? refKey = member at h ⊢
    cases h with
    | text id hne => exact if_neg fun hempty => hne (String.isEmpty_iff.mp hempty)

/-- Where there is none, the reason tells apart a member that is missing, empty or no text. -/
theorem refOf_eq_error_iff : refOf v = .error why ↔ NoId (v.get? refKey) why := by
  unfold refOf
  constructor
  · intro h
    -- the three reasons not to have an id, in the order in which they are found
    split at h
    · next text heq =>
      split at h
      · next hempty =>
        cases h
        rw [heq, String.isEmpty_iff.mp hempty]
        exact .empty
      · cases h
    · next other hother heq =>
      cases h
      rw [heq]
      exact .notText other hother
    · next heq =>
      cases h
      rw [heq]
      exact .missing
  · intro h
    generalize v.get? refKey = member at h ⊢
    cases h with
    | missing | empty => rfl
    | notText other hother =>
      cases other with
      | string text => exact absurd rfl (hother text)
      | _ => rfl

theorem totalSizeOf_eq_ok_iff : totalSizeOf v id = .ok size ↔ SizeIs (v.get? totalSizeKey) size := by
  unfold totalSizeOf
  generalize v.get? totalSizeKey = member
  constructor
  · intro h
    -- only a whole number can be the size
    match member with
    | some (.number (.int i)) =>
      simp only [Option.bind_some, Json.toNat?] at h
      split at h
      · next heq =>
        split at heq
        · next hrange =>
          cases heq
          cases h
          obtain ⟨n, rfl⟩ := Int.eq_ofNat_of_zero_le hrange.1
          exact .word n (by omega)
        · cases heq
      · cases h
    | none | some .null | some (.bool _) | some (.number (.real _)) | some (.string _)
    | some (.array _) | some (.object _) => cases h
  · intro h
    cases h with
    | word size hlt =>
      rw [Option.bind_some, Json.toNat?,
        if_pos ⟨Int.natCast_nonneg size, Int.ofNat_lt.mpr hlt⟩, Int.toNat_natCast]

/-- Whatever else stands in the place of the size, the reason names the id. -/
theorem totalSizeOf_eq_error_iff :
    totalSizeOf v id = .error why ↔
      why = .noTotalSize id ∧ ∀ size, ¬SizeIs (v.get? totalSizeKey) size := by
  simp only [← @totalSizeOf_eq_ok_iff v id]
  unfold totalSizeOf
  cases (v.get? totalSizeKey).bind Json.toNat? with
  | none => simp [eq_comm]
  | some size => simp

theorem fieldPathOf_eq_ok_iff : fieldPathOf v id = .ok path ↔ PathIs (v.get? fieldPathKey) path := by
  unfold fieldPathOf
  generalize v.get? fieldPathKey = member
  constructor
  · intro h
    split at h
    · cases h
      exact .missing
    · cases h
      exact .null
    · cases h
      exact .text _
    · cases h
  · intro h
    cases h with
    | missing | null | text => rfl

/-- Only a path that is there, and is neither a text nor `null`, is refused. -/
theorem fieldPathOf_eq_error_iff :
    fieldPathOf v id = .error why ↔
      why = .pathNotText id ∧ ∀ path, ¬PathIs (v.get? fieldPathKey) path := by
  simp only [← @fieldPathOf_eq_ok_iff v id]
  unfold fieldPathOf
  generalize v.get? fieldPathKey = member
  split <;> simp [eq_comm]

end

/-! ## Read from a value

The members are looked at in a fixed order, so the first that cannot be used names the reason. `Decoded`
says what a value is read as without that order. -/

/-- An object whose flag is set. -/
def Flagged (v : Json) : Prop :=
  ∃ members : Json.Members, v = .object members ∧ members.get? chunkedKey = some (.bool true)

/-- The flag counts only as the literal `true`. -/
theorem flagged_iff {v : Json} : Flagged v ↔ v.get? chunkedKey = some (.bool true) := by
  constructor
  · rintro ⟨members, rfl, h⟩
    exact h
  · intro h
    cases v with
    | object members => exact ⟨members, rfl, h⟩
    | _ => cases h

/-- Only the flag decides whether a value claims to be a marker. -/
theorem isMarker_iff {v : Json} : isMarker v = true ↔ Flagged v := by
  rw [flagged_iff]
  unfold isMarker
  constructor
  · intro h
    split at h
    · next b heq =>
      rw [heq, h]
    · cases h
  · intro h
    rw [h]

/-- The members of a value that is read as a marker. -/
structure Describes (v : Json) (m : Marker) : Prop where
  chunked : m.chunked = true
  ref : IdIs (v.get? refKey) m.ref
  totalSize : SizeIs (v.get? totalSizeKey) m.totalSize
  fieldPath : PathIs (v.get? fieldPathKey) m.fieldPath

/-- `Unusable v why`: the first member that says nothing usable: the id, then the size, then the path. -/
inductive Unusable (v : Json) : BadReference → Prop where
  | id {why : BadReference} (hid : NoId (v.get? refKey) why) : Unusable v why
  | totalSize (id : String) (hid : IdIs (v.get? refKey) id)
      (hsize : ∀ size, ¬SizeIs (v.get? totalSizeKey) size) : Unusable v (.noTotalSize id)
  | fieldPath (id : String) (size : Nat) (hid : IdIs (v.get? refKey) id)
      (hsize : SizeIs (v.get? totalSizeKey) size) (hpath : ∀ path, ¬PathIs (v.get? fieldPathKey) path) :
      Unusable v (.pathNotText id)

/-- `Decoded v result`: what a value is read as. -/
inductive Decoded (v : Json) : Except BadReference (Option Marker) → Prop where
  | ordinary (hflag : ¬Flagged v) : Decoded v (.ok none)
  | marker {m : Marker} (hflag : Flagged v) (h : Describes v m) : Decoded v (.ok (some m))
  | unusable {why : BadReference} (hflag : Flagged v) (h : Unusable v why) : Decoded v (.error why)

/-- Every value is read as one thing. The members are gone through in the order in which they are read. -/
theorem decoded_ofJson (v : Json) : Decoded v (ofJson v) := by
  unfold ofJson
  -- without the flag it is no marker; with it, the first member that cannot be used is reported
  by_cases hflag : Flagged v
  · rw [if_pos (isMarker_iff.mpr hflag)]
    simp only [bind, Except.bind]
    cases href : refOf v with
    | error why => exact .unusable hflag (.id (refOf_eq_error_iff.mp href))
    | ok id =>
      have hid := refOf_eq_ok_iff.mp href
      cases htotal : totalSizeOf v id with
      | error why =>
        obtain ⟨rfl, hnone⟩ := totalSizeOf_eq_error_iff.mp htotal
        simp only [htotal]
        exact .unusable hflag (.totalSize id hid hnone)
      | ok size =>
        have hsize := totalSizeOf_eq_ok_iff.mp htotal
        cases hfield : fieldPathOf v id with
        | error why =>
          obtain ⟨rfl, hnone⟩ := fieldPathOf_eq_error_iff.mp hfield
          simp only [htotal, hfield]
          exact .unusable hflag (.fieldPath id size hid hsize hnone)
        | ok path =>
          have hpath := fieldPathOf_eq_ok_iff.mp hfield
          simp only [htotal, hfield]
          exact .marker hflag ⟨rfl, hid, hsize, hpath⟩
  · rw [if_neg fun hmarker => hflag (isMarker_iff.mp hmarker)]
    exact .ordinary hflag

/-- What a value is decoded as, is what is read from it. -/
theorem Decoded.ofJson_eq {v : Json} {result : Except BadReference (Option Marker)}
    (h : Decoded v result) : ofJson v = result := by
  unfold ofJson
  cases h with
  | ordinary hflag => exact if_neg fun hmarker => hflag (isMarker_iff.mp hmarker)
  | @marker m hflag h =>
    obtain ⟨chunked, ref, totalSize, fieldPath⟩ := m
    obtain ⟨rfl, hid, hsize, hpath⟩ := h
    rw [if_pos (isMarker_iff.mpr hflag), refOf_eq_ok_iff.mpr hid]
    simp only [bind, Except.bind, totalSizeOf_eq_ok_iff.mpr hsize, fieldPathOf_eq_ok_iff.mpr hpath]
  | unusable hflag h =>
    rw [if_pos (isMarker_iff.mpr hflag)]
    cases h with
    | id hid =>
      rw [refOf_eq_error_iff.mpr hid]
      rfl
    | totalSize id hid hnone =>
      rw [refOf_eq_ok_iff.mpr hid]
      simp only [bind, Except.bind, totalSizeOf_eq_error_iff.mpr ⟨rfl, hnone⟩]
    | fieldPath id size hid hsize hnone =>
      rw [refOf_eq_ok_iff.mpr hid]
      simp only [bind, Except.bind, totalSizeOf_eq_ok_iff.mpr hsize,
        fieldPathOf_eq_error_iff.mpr ⟨rfl, hnone⟩]

/-- So the description and the reader say the same. -/
theorem decoded_iff {v : Json} {result : Except BadReference (Option Marker)} :
    ofJson v = result ↔ Decoded v result :=
  ⟨fun h => h ▸ decoded_ofJson v, Decoded.ofJson_eq⟩

/-- **Decoding.** A value without the flag is no marker. One with the flag is read with exactly its members
if each of them is usable, and is an invalid reference otherwise. -/
theorem ofJson_decodes (v : Json) :
    (ofJson v = .ok none ↔ ¬Flagged v) ∧
    (∀ m, ofJson v = .ok (some m) ↔ Flagged v ∧ Describes v m) ∧
    (∀ why, ofJson v = .error why ↔ Flagged v ∧ Unusable v why) ∧
    (Flagged v → (∀ m, ¬Describes v m) →
      ∃ why, Unusable v why ∧ Remote.recognize v = .error (.invalidReference why)) := by
  refine ⟨?_, fun m => ?_, fun why => ?_, fun hflag hnone => ?_⟩
  · rw [decoded_iff]
    exact ⟨fun | .ordinary hflag => hflag, .ordinary⟩
  · rw [decoded_iff]
    exact ⟨fun | .marker hflag h => ⟨hflag, h⟩, fun h => .marker h.1 h.2⟩
  · rw [decoded_iff]
    exact ⟨fun | .unusable hflag h => ⟨hflag, h⟩, fun h => .unusable h.1 h.2⟩
  -- a flagged value that is no marker must be unusable
  · have hdecoded := decoded_ofJson v
    unfold Remote.recognize
    generalize ofJson v = result at hdecoded
    cases hdecoded with
    | ordinary hplain => exact absurd hflag hplain
    | marker _ h => exact absurd h (hnone _)
    | unusable _ h => exact ⟨_, h, rfl⟩

/-- A marker whose path is `null` is read with the empty path, one whose path is a number is refused. -/
theorem ofJson_decodes_null :
    ofJson (.object [(chunkedKey, .bool true), (refKey, .string "r"),
        (totalSizeKey, .number (.int 3)), (fieldPathKey, .null)]) = .ok (some (make "r" 3 "")) ∧
      ofJson (.object [(chunkedKey, .bool true), (refKey, .string "r"),
        (totalSizeKey, .number (.int 3)), (fieldPathKey, .number (.int 0))]) =
          .error (.pathNotText "r") := by
  have hid : IdIs (some (.string "r")) "r" := .text "r" (by decide)
  have hsize : SizeIs (some (.number (.int 3))) 3 := .word 3 (by decide)
  constructor
  · exact ((ofJson_decodes _).2.1 _).mpr ⟨⟨_, rfl, rfl⟩, rfl, hid, hsize, .null⟩
  · exact ((ofJson_decodes _).2.2.1 _).mpr ⟨⟨_, rfl, rfl⟩, .fieldPath "r" 3 hid hsize nofun⟩

/-! ## The text of a marker

A marker is printed in two ways, as a value and as a record, and read in two ways. Both ways of printing
give one text, and both ways of reading bring the marker back. -/

/-- What is written for a marker describes it. -/
theorem describes_toJson {m : Marker} (hchunked : m.chunked = true) (hid : m.ref ≠ "")
    (hsize : m.totalSize < Json.wordLimit) : Describes m.toJson m where
  chunked := hchunked
  ref := idIs_iff.mpr ⟨get?_toJson (by simp [members]), hid⟩
  totalSize := sizeIs_iff.mpr ⟨get?_toJson (by simp [members]), hsize⟩
  fieldPath := by
    have hpath : m.toJson.get? fieldPathKey = some (.string m.fieldPath) :=
      get?_toJson (by simp [members])
    exact hpath ▸ .text m.fieldPath

/-- A marker with an id and a 64-bit size is read back. -/
theorem ofJson_toJson {m : Marker} (hchunked : m.chunked = true) (hid : m.ref ≠ "")
    (hsize : m.totalSize < Json.wordLimit) : ofJson m.toJson = .ok (some m) :=
  have hflag : Flagged m.toJson := flagged_iff.mpr (get?_toJson (by simp [members]))
  (Decoded.marker hflag (describes_toJson hchunked hid hsize)).ofJson_eq

/-- The text of the marker of a payload. -/
def wireText (ref : String) (size : Nat) (path : String) : Bytes :=
  utf8 "\x7b\"__chunked__\":true,\"__chunk_ref__\":" ++ Json.printString ref ++
    utf8 ",\"__total_size__\":" ++ utf8 (toString size) ++
    utf8 ",\"__field_path__\":" ++ Json.printString path ++ utf8 "\x7d"

/-- The compact text of a marker has its members in a fixed order and no blanks. -/
theorem print_make (ref : String) (size : Nat) (path : String) :
    (make ref size path).toJson.print = wireText ref size path := by
  have hflag : utf8 "\x7b\"__chunked__\":true,\"__chunk_ref__\":" =
      utf8 "\x7b" ++ (Json.printString chunkedKey ++ utf8 ":" ++ utf8 "true" ++ utf8 "," ++
        (Json.printString refKey ++ utf8 ":")) := by decide
  have hsize : utf8 ",\"__total_size__\":" =
      utf8 "," ++ (Json.printString totalSizeKey ++ utf8 ":") := by decide
  have hpath : utf8 ",\"__field_path__\":" =
      utf8 "," ++ (Json.printString fieldPathKey ++ utf8 ":") := by decide
  simp only [toJson, members, make, wireText, hflag, hsize, hpath, Json.print, Json.printMembers,
    Json.Number.text, List.append_assoc]
  rfl

/-- The members of a marker as a record, each with what is read for it. -/
def entries (m : Marker) : List ((String × Json) × Json.Slot) :=
  [((chunkedKey, .bool m.chunked), .flag m.chunked), ((refKey, .string m.ref), .text m.ref),
    ((totalSizeKey, .number (.int m.totalSize)), .natural m.totalSize),
    ((fieldPathKey, .string m.fieldPath), .text m.fieldPath)]

/-- A marker with a 64-bit size is read back as a record, whatever its flag is. -/
theorem read_toRecord {m : Marker} (hsize : m.totalSize < Json.wordLimit) :
    read m.toRecord.print = .ok m := by
  have hfits : List.Forall₂ Json.Fits shape.members m.entries :=
    .cons (Json.fits_flag _ _) (.cons (Json.fits_text _ _)
      (.cons (Json.fits_natural _ _ hsize hsize) (.cons (Json.fits_text _ _) .nil)))
  have hkeys : (shape.members.map Json.Member.key).Nodup := m.nodup_keys m.chunked
  have hread := Json.Shape.read_print hfits hkeys []
  rw [List.append_nil] at hread
  have hwith : Json.readWith shape.read m.toRecord.print = .ok (m.entries.map Prod.snd) := by
    rw [Json.readWith, toRecord, show m.members m.chunked = m.entries.map Prod.fst from rfl, hread]
    rfl
  rw [read, hwith]
  rfl

/-- **The round trip.** The marker of a payload has one text, as a value and as a record, and both readers
bring it back from there. A marker that was read from any value is written to one that is read as the
same. -/
theorem text_reads_back :
    (∀ ref size path, ref ≠ "" → size < Json.wordLimit →
      (make ref size path).toJson.print = wireText ref size path ∧
      (make ref size path).toRecord.print = wireText ref size path ∧
      (Json.read (wireText ref size path)).toOption.map ofJson =
        some (.ok (some (make ref size path))) ∧
      read (wireText ref size path) = .ok (make ref size path)) ∧
    ∀ v m, ofJson v = .ok (some m) → ofJson m.toJson = .ok (some m) := by
  refine ⟨fun ref size path hid hsize => ?_, fun v m h => ?_⟩
  · set m := make ref size path
    -- both printers write the same members, and each reader reads them back
    have hvalue : Json.read m.toJson.print = .ok m.toJson :=
      Json.read_print (m.nested_toJson.mono (by decide)) (isWhole_toJson hsize)
    have hrecord : read m.toRecord.print = .ok m := read_toRecord hsize
    have hsame : m.toRecord = m.toJson := rfl
    rw [hsame] at hrecord ⊢
    rw [print_make] at hvalue hrecord ⊢
    refine ⟨rfl, rfl, ?_, hrecord⟩
    rw [hvalue]
    exact congrArg some (ofJson_toJson rfl hid hsize)
  · cases decoded_iff.mp h with
    | marker _ h => exact ofJson_toJson h.chunked (idIs_iff.mp h.ref).2 (sizeIs_iff.mp h.totalSize).2

/-- With a quote, a backslash and a line break in the id, a control character and characters beyond ASCII in
the path, and the largest size. The value that is read last leaves its path out. -/
theorem text_reads_back_escaped :
    "\"\\\n" ≠ "" ∧ 18446744073709551615 < Json.wordLimit ∧
    (make "\"\\\n" 18446744073709551615 "\x01é😀").toRecord.print =
      wireText "\"\\\n" 18446744073709551615 "\x01é😀" ∧
    (Json.read (wireText "\"\\\n" 18446744073709551615 "\x01é😀")).toOption.map ofJson =
      some (.ok (some (make "\"\\\n" 18446744073709551615 "\x01é😀"))) ∧
    read (wireText "\"\\\n" 18446744073709551615 "\x01é😀") =
      .ok (make "\"\\\n" 18446744073709551615 "\x01é😀") ∧
    ofJson (make "r" 3 "").toJson = .ok (some (make "r" 3 "")) := by
  have hid : "\"\\\n" ≠ "" := by decide
  have hsize : 18446744073709551615 < Json.wordLimit := by decide
  obtain ⟨-, hrecord, hvalue, hread⟩ :=
    text_reads_back.1 "\"\\\n" 18446744073709551615 "\x01é😀" hid hsize
  have hpathless : ofJson (.object [(totalSizeKey, .number (.int 3)), (refKey, .string "r"),
      (chunkedKey, .bool true)]) = .ok (some (make "r" 3 "")) := rfl
  exact ⟨hid, hsize, hrecord, hvalue, hread, text_reads_back.2 _ _ hpathless⟩

end Stowage.Marker
