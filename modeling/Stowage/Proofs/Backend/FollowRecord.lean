import Stowage.Proofs.Backend.Local
import Stowage.Proofs.Records.Loading
/-!
# Stowage — following a record that stands in a message

A record in a message can be followed in two ways: it is recognized and its value fetched
(`Local.follow`), or the record it refers to is loaded (`RecordStore.loadFrom`). Each way takes the id
out of the value by itself. They differ in one case, the empty id: there is no such id to the first
way, and a malformed one to the second. Otherwise both come to the same calls, and the first makes the
text of the data out of the record that the second gives (`textOf`).
-/

namespace Stowage

/-- What kind of failure it is, without its details. -/
inductive Failure.Kind where
  | notFound
  | timeout
  | invalidReference
  | transport
  | encoding
  | config
deriving DecidableEq, Repr

/-- The kind of a failure. -/
def Failure.kind : Failure → Failure.Kind
  | notFound _ => .notFound
  | timeout _ => .timeout
  | invalidReference _ => .invalidReference
  | transport _ _ => .transport
  | encoding _ => .encoding
  | config _ => .config

namespace RecordStore

variable {s : RecordStore} {id : String} {record : Record} {v v' : Json}

/-- A record that is accepted is the one that was asked for. -/
theorem made_id {reply : Option (Except Disk.Error Bytes)} (h : s.made id reply = .ok record) :
    record.id = id := by
  rcases reply with _ | why | content
  · cases h
  · cases h
  · cases decode_eq_iff.mp h with
    | found _ hintact => exact hintact.id_eq

/-- In every world, the record that is loaded is the one that was asked for. -/
theorem run_load_id {σ : Type} {world : Answering σ} {start : σ}
    (h : ((s.load id).run world start).1 = .ok record) : record.id = id := by
  by_cases hid : ZBase32.isId id = true
  · rw [load_of_isId hid] at h
    exact made_id h
  · rw [load_of_not_isId hid] at h
    cases h

/-- The empty id is refused before any file is looked at. -/
theorem load_empty (s : RecordStore) :
    s.load "" = .done (.error (.invalidReference (.malformedId ""))) :=
  load_of_not_isId (by decide)

/-- Of the value that refers to a record, loading looks at the id alone. -/
theorem loadFrom_congr (s : RecordStore) (hid : v'.get? "id" = v.get? "id") :
    s.loadFrom v' = s.loadFrom v := by
  rw [loadFrom, loadFrom, hid]

end RecordStore

namespace Local

/-- Follows a value: it is recognized and what is behind it fetched. Nothing if it is no record. -/
def follow (s : RecordStore) (value : Json) : Program (Except Failure (Option Bytes)) :=
  match recognize value with
  | .error failure => .done (.error failure)
  | .ok none => .done (.ok none)
  | .ok (some reference) => do
    match ← rehydrate s reference with
    | .error failure => pure (.error failure)
    | .ok bytes => pure (.ok (some bytes))

/-- The text of the data of what was loaded for an id. -/
def textOf (id : String) : Except Failure Record → Except Failure (Option Bytes)
  | .error failure => .error failure
  | .ok record =>
    match record.data with
    | some value => .ok (some value.print)
    | none => .error (.invalidReference (.recordWithoutData id))

variable {s : RecordStore} {v v' : Json} {id : String}

/-- Whether it is a record is decided by the magic number alone. -/
theorem isRecord_congr (hmagic : v'.get? "magic" = v.get? "magic") :
    Record.isRecord v' = Record.isRecord v := by
  rw [Record.isRecord, Record.isRecord, hmagic]

/-! ## The two ways side by side

Both ways start from the id that the value shows, so the cases are those of the id: none, empty, or any
other text. -/

/-- Without an id there is nothing to follow. -/
theorem recognize_of_noId (hrecord : Record.isRecord v = true)
    (hid : (v.get? "id").bind Json.toText? = none) :
    recognize v = .error (.invalidReference .recordWithoutId) := by
  rw [recognize, if_pos hrecord, hid]

/-- An empty id counts for none: here the two ways part. -/
theorem recognize_of_emptyId (hrecord : Record.isRecord v = true)
    (hid : (v.get? "id").bind Json.toText? = some "") :
    recognize v = .error (.invalidReference .recordWithoutId) := by
  rw [recognize, if_pos hrecord, hid]
  exact if_pos (by decide)

/-- Any other id is taken, whatever its form. A malformed one is refused when it is loaded. -/
theorem recognize_of_id (hrecord : Record.isRecord v = true)
    (hid : (v.get? "id").bind Json.toText? = some id) (hne : id ≠ "") :
    ∃ size, recognize v = .ok (some ⟨id, size, ""⟩) := by
  have hempty : ¬ id.isEmpty = true := fun h => hne (String.isEmpty_iff.mp h)
  rw [recognize, if_pos hrecord, hid]
  exact ⟨_, if_neg hempty⟩

/-- What is fetched for an id does not depend on what else the reference says. -/
theorem follow_of_recognize {size : Nat} {fieldPath : String}
    (h : recognize v = .ok (some ⟨id, size, fieldPath⟩)) :
    follow s v = s.load id >>= fun loaded => .done (textOf id loaded) := by
  rw [follow, h]
  simp only [rehydrate, Program.bind_eq, Program.bind_assoc]
  refine congrArg (Program.bind _) (funext fun loaded => ?_)
  cases loaded with
  | error failure => rfl
  | ok record =>
    simp only [textOf]
    cases record.data with
    | none => rfl
    | some value => rfl

/-- A record is followed by its id alone. -/
def followId (s : RecordStore) : Option String → Program (Except Failure (Option Bytes))
  | none => .done (.error (.invalidReference .recordWithoutId))
  | some id =>
    if id = "" then .done (.error (.invalidReference .recordWithoutId))
    else s.load id >>= fun loaded => .done (textOf id loaded)

/-- So following depends on the id that is shown, and on nothing else. -/
theorem follow_eq (s : RecordStore) (hrecord : Record.isRecord v = true) :
    follow s v = followId s ((v.get? "id").bind Json.toText?) := by
  cases hid : (v.get? "id").bind Json.toText? with
  | none => rw [follow, recognize_of_noId hrecord hid, followId]
  | some id =>
    rw [followId]
    by_cases hne : id = ""
    · subst hne
      rw [follow, recognize_of_emptyId hrecord hid, if_pos rfl]
    · obtain ⟨size, hrecognize⟩ := recognize_of_id hrecord hid hne
      rw [follow_of_recognize hrecognize, if_neg hne]

theorem toText?_eq_some {value : Json} (h : value.toText? = some id) : value = .string id := by
  cases value with
  | string text =>
    cases h
    rfl
  | _ => cases h

/-- The id is shown as a text, not as anything that has one. -/
theorem get?_id_eq (hid : (v.get? "id").bind Json.toText? = some id) :
    v.get? "id" = some (.string id) := by
  obtain ⟨value, hvalue, htext⟩ := Option.bind_eq_some_iff.mp hid
  exact toText?_eq_some htext ▸ hvalue

/-- How what is followed and what is loaded belong together. -/
inductive Agrees (v : Json) : Except Failure Record → Except Failure (Option Bytes) → Prop where
  | text (record : Record) (value : Json) (h : record.data = some value) :
      Agrees v (.ok record) (.ok (some value.print))
  | noData (record : Record) (h : record.data = none) :
      Agrees v (.ok record) (.error (.invalidReference (.recordWithoutData record.id)))
  | fails (failure : Failure) : Agrees v (.error failure) (.error failure)
  | emptyId (hid : v.get? "id" = some (.string "")) :
      Agrees v (.error (.invalidReference (.malformedId "")))
        (.error (.invalidReference .recordWithoutId))

/-- Taking the text out of what was loaded agrees with loading it. -/
theorem agrees_textOf {loaded : Except Failure Record}
    (hid : ∀ record, loaded = .ok record → record.id = id) : Agrees v loaded (textOf id loaded) := by
  cases loaded with
  | error failure => exact .fails failure
  | ok record =>
    rw [textOf]
    cases hdata : record.data with
    | none => exact hid record rfl ▸ .noData record hdata
    | some value => exact .text record value hdata

section

variable {loaded : Except Failure Record} {followed : Except Failure (Option Bytes)}
  (h : Agrees v loaded followed)

include h

/-- One way gives a text exactly if the other gives a record with data. -/
theorem Agrees.ok_iff (bytes : Bytes) : followed = .ok (some bytes) ↔
    ∃ record value, loaded = .ok record ∧ record.data = some value ∧ bytes = value.print := by
  cases h with
  | text record value hdata =>
    constructor
    · intro heq
      cases heq
      exact ⟨record, value, rfl, hdata, rfl⟩
    · rintro ⟨_, _, hrecord, hvalue, rfl⟩
      cases hrecord
      cases hdata.symm.trans hvalue
      rfl
  | noData record hdata =>
    refine ⟨nofun, ?_⟩
    rintro ⟨_, _, hrecord, hvalue, -⟩
    cases hrecord
    cases hdata.symm.trans hvalue
  | fails failure => exact ⟨nofun, nofun⟩
  | emptyId hid => exact ⟨nofun, nofun⟩

/-- If loading fails, following fails in the same way, but for the empty id. -/
theorem Agrees.of_error {failure : Failure} (hloaded : loaded = .error failure) :
    ∃ failure', followed = .error failure' ∧ failure'.kind = failure.kind ∧
      (failure' = failure ∨ v.get? "id" = some (.string "")) := by
  cases h with
  | text record value hdata => cases hloaded
  | noData record hdata => cases hloaded
  | fails _ =>
    cases hloaded
    exact ⟨_, rfl, rfl, .inl rfl⟩
  | emptyId hid =>
    cases hloaded
    exact ⟨_, rfl, rfl, .inr hid⟩

/-- A record without data is loaded, and cannot be followed. -/
theorem Agrees.of_noData {record : Record} (hloaded : loaded = .ok record)
    (hdata : record.data = none) :
    followed = .error (.invalidReference (.recordWithoutData record.id)) := by
  cases h with
  | text _ value hvalue =>
    cases hloaded
    cases hdata.symm.trans hvalue
  | noData _ _ =>
    cases hloaded
    rfl
  | fails _ => cases hloaded
  | emptyId _ => cases hloaded

end

/-- In every world both ways make the same calls and leave the same world, and their results agree. -/
theorem run_follow {σ : Type} (s : RecordStore) (hrecord : Record.isRecord v = true)
    (world : Answering σ) (start : σ) :
    ((follow s v).run world start).2 = ((s.loadFrom v).run world start).2 ∧
      (follow s v).exchanges world start = (s.loadFrom v).exchanges world start ∧
      Agrees v ((s.loadFrom v).run world start).1 ((follow s v).run world start).1 := by
  rw [follow_eq s hrecord, RecordStore.loadFrom]
  cases hid : (v.get? "id").bind Json.toText? with
  | none => exact ⟨rfl, rfl, .fails _⟩
  | some id =>
    by_cases hne : id = ""
    -- the two ways have a reason of their own to refuse the empty id
    · subst hne
      rw [followId, if_pos rfl]
      simp only [RecordStore.load_empty]
      exact ⟨rfl, rfl, .emptyId (get?_id_eq hid)⟩
    · rw [followId, if_neg hne, Program.run_bind, Program.exchanges_bind]
      exact ⟨rfl, List.append_nil _, agrees_textOf fun record h => RecordStore.run_load_id h⟩

/-- Values with the same magic number and id are followed alike. -/
theorem follow_congr (s : RecordStore) (hrecord : Record.isRecord v = true)
    (hmagic : v'.get? "magic" = v.get? "magic") (hid : v'.get? "id" = v.get? "id") :
    Record.isRecord v' = true ∧ follow s v' = follow s v := by
  have hrecord' : Record.isRecord v' = true := (isRecord_congr hmagic).trans hrecord
  refine ⟨hrecord', ?_⟩
  rw [follow_eq s hrecord, follow_eq s hrecord', hid]

/-- **Both ways to follow a record agree**, in every world and whatever its replies are: they make the
same calls and leave the same world; what is followed is the text of the data that is loaded; what
cannot be loaded cannot be followed, for a failure of the same kind, and but for the empty id for the
same failure; a record without data is followed to no text. Both depend on the magic number and the id
of the record alone. -/
theorem follow_agrees_with_loadFrom (s : RecordStore) (v : Json)
    (hrecord : Record.isRecord v = true) :
    (∀ (σ : Type) (world : Answering σ) (start : σ),
      ((follow s v).run world start).2 = ((s.loadFrom v).run world start).2 ∧
      (follow s v).exchanges world start = (s.loadFrom v).exchanges world start ∧
      (∀ bytes, ((follow s v).run world start).1 = .ok (some bytes) ↔
        ∃ record value, ((s.loadFrom v).run world start).1 = .ok record ∧
          record.data = some value ∧ bytes = value.print) ∧
      (∀ failure, ((s.loadFrom v).run world start).1 = .error failure →
        ∃ failure', ((follow s v).run world start).1 = .error failure' ∧
          failure'.kind = failure.kind ∧
          (failure' = failure ∨ v.get? "id" = some (.string ""))) ∧
      ∀ record, ((s.loadFrom v).run world start).1 = .ok record → record.data = none →
        ((follow s v).run world start).1 =
          .error (.invalidReference (.recordWithoutData record.id))) ∧
    ∀ v' : Json, v'.get? "magic" = v.get? "magic" → v'.get? "id" = v.get? "id" →
      Record.isRecord v' = true ∧ follow s v' = follow s v ∧ s.loadFrom v' = s.loadFrom v := by
  refine ⟨fun σ world start => ?_, fun v' hmagic hid => ?_⟩
  -- both ways make the same calls, so their outcomes are compared in one world
  · obtain ⟨hleft, hcalls, hagrees⟩ := run_follow s hrecord world start
    exact ⟨hleft, hcalls, hagrees.ok_iff, fun _ => hagrees.of_error, fun _ => hagrees.of_noData⟩
  · obtain ⟨hrecord', hfollow⟩ := follow_congr s hrecord hmagic hid
    exact ⟨hrecord', hfollow, s.loadFrom_congr hid⟩

/-- The least that a record can say of itself: its magic number and its id. -/
def bareRecord : Json :=
  .object [("magic", .number (.int Record.magicNumber)), ("id", .string "yyyyyyyyybyybyyyyyyyyyyyyr")]

/-- A world with one record file, for an empty array. -/
def withRecord : World where
  dice := ⟨[], 0⟩
  link := .clear
  made := 0
  log := []
  host := .empty 0
  peer := .nobody
  disk :=
    ⟨[(["records", "yyyyyyyyybyybyyyyyyyyyyyyr.lmo"],
        .file (Record.stored "yyyyyyyyybyybyyyyyyyyyyyyr" (utf8 "[]") (.array [])).toJson.print),
      (["records"], .directory)], []⟩
  input := []

/-- A record that says neither its size nor its head is followed to the text of its data. -/
theorem follow_agrees_with_loadFrom_bare :
    Record.isRecord bareRecord = true ∧
      (follow smallest bareRecord).run World.answer withRecord =
        (.ok (some (utf8 "[]")), withRecord) := by
  have hrecord : Record.isRecord bareRecord = true := Record.isMagic_magicNumber
  have hread : Record.read
      (Record.stored "yyyyyyyyybyybyyyyyyyyyyyyr" (utf8 "[]") (.array [])).toJson.print = .ok _ :=
    Record.read_print_stored _ (by decide) (.array _ _ (by simp)) (.array _ (by simp))
  have hid : ZBase32.isId "yyyyyyyyybyybyyyyyyyyyyyyr" = true := by decide
  have hload : World.run (smallest.loadFrom bareRecord) withRecord = (.ok _, withRecord) :=
    RecordStore.run_load hid (by decide +kernel) hread rfl rfl rfl
  obtain ⟨hleft, -, htext, -⟩ :=
    (follow_agrees_with_loadFrom smallest bareRecord hrecord).1 World World.answer withRecord
  have hloaded := congrArg Prod.fst hload
  refine ⟨hrecord, Prod.ext ((htext _).mpr ⟨_, _, hloaded, rfl, by decide⟩) ?_⟩
  exact hleft.trans (congrArg Prod.snd hload)

end Local

end Stowage
