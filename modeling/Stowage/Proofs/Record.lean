import Stowage.Backend.Local
import Stowage.Proofs.Assoc
import Stowage.Proofs.Json.Depth
/-!
# Stowage — records in files and in messages

A record that is printed into its file with its data is read back (`read_print`), with data that is like
it: binary64 numbers may be rounded, and `null` is taken for no data (`kept`). Data that nests too deep
for the place where it stands is not read back (`read_print_deep`). The copy of a record that stands in a
message has no data member and is recognized by its magic number and its id (`recognize_reference`).
-/

namespace Stowage

open Json

namespace Record

/-! ## Read back from a file

The file of a record holds all six members, with the data last. Each of them is read by a reader of its
own (`fits_natural`, `fits_text`, `fits_data`), and the reader of the whole record follows from that. -/

/-- What is read back of the data of a record. -/
def kept : Json → Option Json
  | .null => none
  | value => some value

/-- No data but `null` is lost. -/
theorem kept_of_ne {value : Json} (h : value ≠ .null) : kept value = some value := by
  cases value <;> first | exact absurd rfl h | rfl

/-- The members of a record in its file, each with what is read for it. The data may be read as another
value than it is, if it has numbers that are rounded. -/
def entries (r : Record) (value back : Json) : List ((String × Json) × Slot) :=
  [(("magic", .number (.int r.magic)), .natural r.magic),
    (("version", .number (.int r.version)), .natural r.version),
    (("id", .string r.id), .text r.id), (("head", .string r.head), .text r.head),
    (("size", .number (.int r.size)), .natural r.size), (("data", value), .tree (kept back))]

/-- The numbers of a record are in the ranges that they are read in. -/
structure InRange (r : Record) : Prop where
  magic : r.magic < wordLimit
  version : r.version < 1 <<< 32
  size : r.size < wordLimit

/-- The data is read as a value like it, but `null` as nothing. -/
theorem fits_data (key : String) (absent : Option Slot) {depth : Nat} {value back : Json}
    (hreads : RereadsAs (Json.value depth) value back) (halike : Alike value back) :
    Fits ⟨key, fun bytes => (optional (Json.value depth) bytes).map fun r => (.tree r.1, r.2), absent⟩
      ((key, value), .tree (kept back)) := by
  refine ⟨rfl, fun rest hrest => ?_⟩
  -- the one value whose text the optional reader takes for nothing
  by_cases hnull : value = .null
  · subst hnull
    cases halike
    simp only [optional_null]
    rfl
  · have hback : back ≠ .null := by
      rintro rfl
      cases halike
      exact hnull rfl
    simp only [optional_print hreads hnull hrest, kept_of_ne hback]
    rfl

/-- The members of a record are told apart by their keys. -/
theorem nodup_keys : (shape.members.map Member.key).Nodup := by
  have hkeys : ["magic", "version", "id", "head", "size", "data"].Nodup := by decide
  exact hkeys

/-- **Records are read back**, with what the text of their data is read as. -/
theorem read_print {r : Record} {value back : Json} (hrange : r.InRange) (hdata : r.data = some value)
    (hreads : RereadsAs (Json.value (maxDepth - 1)) value back) (halike : Alike value back) :
    read r.toJson.print = .ok { r with data := kept back } := by
  have hfits : List.Forall₂ Fits shape.members (r.entries value back) :=
    .cons (fits_natural _ _ hrange.magic hrange.magic)
      (.cons (fits_natural _ _ hrange.version (Nat.lt_trans hrange.version (by decide)))
        (.cons (fits_text _ _) (.cons (fits_text _ _)
          (.cons (fits_natural _ _ hrange.size hrange.size)
            (.cons (fits_data _ _ hreads halike) .nil)))))
  have hmembers : r.members = (r.entries value back).map Prod.fst := by
    rw [members, hdata]
    rfl
  have hread := Shape.read_print hfits nodup_keys []
  rw [← hmembers, List.append_nil] at hread
  have hwith : readWith shape.read r.toJson.print = .ok ((r.entries value back).map Prod.snd) := by
    rw [readWith, toJson, hread]
    rfl
  rw [read, hwith]
  rfl

/-- The data that is too deep stops its reader. -/
theorem data_stops {depth deeper : Nat} {value : Json} (hnested : Nested deeper value)
    (hreadable : AllNumbers Number.Readable value) (hdeep : ¬ Nested depth value) (rest : Bytes)
    (hrest : Delimits rest) :
    ∃ left, ((optional (Json.value depth) (print value ++ rest)).map fun r =>
      ((.tree r.1, r.2) : Slot × Bytes)) = .error ⟨.tooDeep, left⟩ := by
  have hnull : value ≠ .null := by
    rintro rfl
    exact hdeep (.null depth)
  obtain ⟨left, hleft⟩ :=
    optional_print_deep (value_print_deep hnested hreadable hdeep) hnull hrest
  refine ⟨left, ?_⟩
  rw [hleft]
  rfl

/-- **A record whose data nests too deep is not read back**: its members are one level of nesting more. -/
theorem read_print_deep {r : Record} {value : Json} {deeper : Nat} (hrange : r.InRange)
    (hdata : r.data = some value) (hnested : Nested deeper value)
    (hreadable : AllNumbers Number.Readable value) (hdeep : ¬ Nested (maxDepth - 1) value) :
    ∃ fault, read r.toJson.print = .error fault ∧ fault.reason = .tooDeep := by
  have hmembers : r.members = (r.entries value value).map Prod.fst := by
    rw [members, hdata]
    rfl
  obtain ⟨left, hread⟩ := Shape.read_print_stop rfl nodup_keys
    (fits_natural "magic" "u64" hrange.magic hrange.magic)
    (.cons (fits_natural "version" "u32" hrange.version (Nat.lt_trans hrange.version (by decide)))
      (.cons (fits_text "id" r.id) (.cons (fits_text "head" r.head)
        (.cons (fits_natural "size" "u64" hrange.size hrange.size) .nil))))
    (data_stops hnested hreadable hdeep) []
  have hread : shape.read r.toJson.print = .error ⟨.tooDeep, left⟩ := by
    rw [toJson, hmembers, ← List.append_nil (Json.print _)]
    exact hread
  refine ⟨Stop.locate ⟨.tooDeep, left⟩ r.toJson.print, ?_, rfl⟩
  rw [read, readWith, hread]
  rfl

/-- The record of a value in its file. -/
def stored (id : String) (bytes : Bytes) (value : Json) : Record :=
  { reference id bytes with data := some value }

/-- The numbers of a record are in range if its size is: the others are constants. -/
theorem inRange_stored (id : String) {bytes : Bytes} (hsize : bytes.length < wordLimit)
    (value : Json) : (stored id bytes value).InRange :=
  ⟨show magicNumber < wordLimit by decide, show currentVersion < 1 <<< 32 by decide, hsize⟩

/-- What is written for a value that nests too deep is refused later, with the depth as the reason. -/
theorem read_print_stored_deep (id : String) {bytes : Bytes} {value : Json} {deeper : Nat}
    (hsize : bytes.length < wordLimit) (hnested : Nested deeper value)
    (hreadable : AllNumbers Number.Readable value) (hdeep : ¬ Nested (maxDepth - 1) value) :
    ∃ fault, read (stored id bytes value).toJson.print = .error fault ∧ fault.reason = .tooDeep :=
  read_print_deep (inRange_stored id hsize value) rfl hnested hreadable hdeep

/-- What is written for any other value is read with a value like it for its data. -/
theorem read_print_stored_alike (id : String) {bytes : Bytes} {value back : Json}
    (hsize : bytes.length < wordLimit) (hreads : RereadsAs (Json.value (maxDepth - 1)) value back)
    (halike : Alike value back) :
    read (stored id bytes value).toJson.print = .ok { reference id bytes with data := kept back } :=
  read_print (inRange_stored id hsize value) rfl hreads halike

/-- Data without binary64 numbers comes back as it is. -/
theorem read_print_stored (id : String) {bytes : Bytes} {value : Json}
    (hsize : bytes.length < wordLimit) (hnested : Nested (maxDepth - 1) value)
    (hwhole : IsWhole value) :
    read (stored id bytes value).toJson.print = .ok { reference id bytes with data := kept value } :=
  read_print_stored_alike id hsize (value_print hnested hwhole) (.refl hnested)

/-! ## The copy in a message

What is left in a message is the record without its data. It has to be told from any other object that
can stand there, so all that counts is which members it shows. -/

/-- Whether a `magic` member makes its object a record. -/
def isMagicMember : Option Json → Bool
  | some (.number n) => isMagic n
  | _ => false

/-- A record that is written shows the magic number that is looked for. -/
theorem isMagic_magicNumber : isMagic (.int magicNumber) = true :=
  decide_eq_true rfl

section

variable (id : String) (bytes : Bytes)

theorem nodup_keys_reference : (reference id bytes).members.keys.Nodup := by
  have hkeys : ["magic", "version", "id", "head", "size"].Nodup := by decide
  exact hkeys

theorem members_reference :
    (reference id bytes).members =
      [("magic", .number (.int magicNumber)), ("version", .number (.int currentVersion)),
        ("id", .string id), ("head", .string (headOf bytes)),
        ("size", .number (.int bytes.length))] := rfl

/-- Each member of the copy is found under its key. -/
theorem get?_reference {key : String} {value : Json}
    (h : (key, value) ∈ (reference id bytes).members) :
    (reference id bytes).toJson.get? key = some value :=
  Assoc.find?_eq_some_of_mem (nodup_keys_reference id bytes) h

/-- The copy is flat: an object of scalars. -/
theorem nested_reference : Nested 1 (reference id bytes).toJson := by
  refine .object 0 _ (nodup_keys_reference id bytes) fun member hmember => ?_
  rw [members_reference] at hmember
  simp only [List.mem_cons, List.not_mem_nil, or_false] at hmember
  rcases hmember with rfl | rfl | rfl | rfl | rfl
  · exact .number 0 _
  · exact .number 0 _
  · exact .string 0 id
  · exact .string 0 _
  · exact .number 0 _

variable {bytes}

/-- All numbers of the copy are natural, so it is printed and read without rounding. -/
theorem isWhole_reference (hsize : bytes.length < wordLimit) :
    IsWhole (reference id bytes).toJson := by
  refine .object _ fun member hmember => ?_
  rw [members_reference] at hmember
  simp only [List.mem_cons, List.not_mem_nil, or_false] at hmember
  rcases hmember with rfl | rfl | rfl | rfl | rfl
  · exact .number _ (Number.isWhole_natural (by decide))
  · exact .number _ (Number.isWhole_natural (by decide))
  · exact .string id
  · exact .string _
  · exact .number _ (Number.isWhole_natural hsize)

end

end Record

namespace Local

/-- A value is left alone exactly when it is no record. -/
theorem recognize_eq_none_iff (value : Json) :
    recognize value = .ok none ↔ Record.isRecord value = false := by
  unfold recognize
  cases Record.isRecord value with
  | false => simp
  | true =>
    simp only [if_true]
    cases (value.get? "id").bind toText? with
    | none => simp
    | some id =>
      simp only
      split <;> simp

/-- An object is recognized by three of its members, whatever stands beside them. -/
theorem recognize_of_members {value : Json} {id : String} {size : Nat}
    (hmagic : value.get? "magic" = some (.number (.int Record.magicNumber)))
    (hid : value.get? "id" = some (.string id)) (hne : id ≠ "")
    (hsize : value.get? "size" = some (.number (.int size))) (hword : size < wordLimit) :
    recognize value = .ok (some ⟨id, size, ""⟩) := by
  have hrecord : Record.isRecord value = true := by
    rw [Record.isRecord, hmagic]
    exact Record.isMagic_magicNumber
  have hempty : id.isEmpty = false := by
    rw [← Bool.not_eq_true, String.isEmpty_iff]
    exact hne
  rw [recognize, if_pos hrecord, hid, hsize, Option.bind_some, Option.bind_some, toText?, toNat?,
    if_pos ⟨Int.natCast_nonneg size, Int.ofNat_lt.mpr hword⟩, Int.toNat_natCast]
  simp only [hempty, Bool.false_eq_true, if_false, Option.getD_some]

/-- The copy that is left in a message is recognized as the record that it was made from. -/
theorem recognize_reference {id : String} {bytes : Bytes} (hne : id ≠ "")
    (hsize : bytes.length < wordLimit) :
    recognize (Record.reference id bytes).toJson = .ok (some ⟨id, bytes.length, ""⟩) :=
  recognize_of_members (Record.get?_reference id bytes (by simp [Record.members_reference]))
    (Record.get?_reference id bytes (by simp [Record.members_reference])) hne
    (Record.get?_reference id bytes (by simp [Record.members_reference])) hsize

end Local

end Stowage
