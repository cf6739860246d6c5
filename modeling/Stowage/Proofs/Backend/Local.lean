import Stowage.Proofs.Disk
import Stowage.Proofs.Ident.ZBase32
import Stowage.Proofs.Message.RoundTrip
import Stowage.Proofs.Record
import Stowage.World
/-!
# Stowage — the local round trip

A message whose large fields are moved into record files comes back, as long as none of them is `null`.
A record file is written beside its place and renamed (`run_writeRecord`); for a fresh id that changes
nothing that stood in the directory before, so all the records of a message can be loaded at the end
(`offloads`, `restores`). A field `null` is moved when the threshold is below its four bytes; its
record is read back without data, and the message cannot be resolved. `resolve_offload_object` has both
halves.
-/

namespace Stowage

namespace RecordStore

/-! ## The names of record files

A record has two names, that of its file and that of the file that is written first. Both are the id
with a suffix, and the form of ids keeps them within one directory and apart from each other. -/

/-- Every record id has the same number of letters. -/
theorem length_of_isId {id : String} (h : ZBase32.isId id = true) :
    id.toList.length = ZBase32.idLength :=
  (of_decide_eq_true h).1

/-- None of the letters of an id is a separator. -/
theorem slash_of_isId {id : String} (h : ZBase32.isId id = true) : '/' ∉ id.toList := by
  intro hslash
  have hall := List.all_eq_true.mp (of_decide_eq_true h).2 '/' hslash
  exact absurd hall (by decide)

/-- An id with a suffix is a plain name: it is too long to be a dot or two. -/
theorem plain_append {id suffix : String} (h : ZBase32.isId id = true)
    (hsuffix : '/' ∉ suffix.toList) : Disk.Plain (id ++ suffix) := by
  have hlength : ZBase32.idLength ≤ (id ++ suffix).toList.length := by
    rw [String.toList_append, List.length_append, length_of_isId h]
    exact Nat.le_add_right _ _
  have hne : ∀ short : String, short.toList.length < ZBase32.idLength → id ++ suffix ≠ short := by
    rintro short hshort rfl
    exact absurd hlength (Nat.not_le.mpr hshort)
  refine ⟨?_, hne "" (by decide), hne "." (by decide), hne ".." (by decide)⟩
  rw [String.toList_append, List.mem_append]
  exact fun hslash => hslash.elim (slash_of_isId h) hsuffix

theorem plain_fileName {id : String} (h : ZBase32.isId id = true) : Disk.Plain (fileName id) :=
  plain_append h (by decide)

theorem plain_stagingName {id : String} (h : ZBase32.isId id = true) :
    Disk.Plain (stagingName id) :=
  plain_append h (by decide)

/-- Different ids have different files. -/
theorem fileName_injective {id other : String} (h : fileName id = fileName other) : id = other :=
  String.append_left_inj ".lmo" |>.mp h

/-- A file that is still being written has a name of its own. -/
theorem stagingName_ne_fileName (id other : String) : stagingName id ≠ fileName other := by
  intro h
  -- the names end in different letters
  have hlast := congrArg (fun name => name.toList.getLast?) h
  have hstaging : ".lmo.tmp".toList = ['.', 'l', 'm', 'o', '.', 't', 'm', 'p'] := by decide
  have hfile : ".lmo".toList = ['.', 'l', 'm', 'o'] := by decide
  simp [stagingName, fileName, hstaging, hfile] at hlast

/-! ## Free places

A record is written to a fresh id, so neither of its two places is taken. What is written later goes to
other places (`Free.of_written`), which is what the induction over the candidates needs. -/

/-- Nothing is at the places of the record with an id: not at the place of its file, and not where the
file is written first. -/
structure Free (s : RecordStore) (here : Disk.Place) (id : String) (d : Disk) : Prop where
  file : d.locate (Path.join s.dir (fileName id)) = .ok ⟨here ++ [fileName id], false⟩
  noFile : d.node? (here ++ [fileName id]) = none
  staging : d.locate (Path.join s.dir (stagingName id)) = .ok ⟨here ++ [stagingName id], false⟩
  noStaging : d.node? (here ++ [stagingName id]) = none

variable {s : RecordStore} {here : Disk.Place} {d : Disk}

/-- A place is free if reading finds neither file. -/
theorem Free.of_notFound {id : String} (hmade : Disk.Made d s.dir here) (hid : ZBase32.isId id = true)
    (hfile : d.read (Path.join s.dir (fileName id)) = some (.error .notFound))
    (hstaging : d.read (Path.join s.dir (stagingName id)) = some (.error .notFound)) :
    s.Free here id d := by
  obtain ⟨hfile, hnoFile⟩ := Disk.locate_of_notFound hmade (plain_fileName hid) hfile
  obtain ⟨hstaging, hnoStaging⟩ := Disk.locate_of_notFound hmade (plain_stagingName hid) hstaging
  exact ⟨hfile, hnoFile, hstaging, hnoStaging⟩

/-- The disk after the file of a record has been written. -/
def written (here : Disk.Place) (id : String) (content : Bytes) (d : Disk) : Disk :=
  d.moved (here ++ [stagingName id]) (here ++ [fileName id]) content

variable {id : String} (hfree : s.Free here id d) (content : Bytes)

include hfree

/-- Writing a record changes one place and no other. -/
theorem Free.node?_written (other : Disk.Place) :
    (written here id content d).node? other =
      if other = here ++ [fileName id] then some (.file content) else d.node? other :=
  Disk.node?_moved content hfree.noStaging hfree.noFile other

/-- No directory is lost by it. -/
theorem Free.keepsDirectories_written : Disk.KeepsDirectories d (written here id content d) :=
  Disk.keepsDirectories_moved content hfree.noStaging hfree.noFile

/-- The places of other records stay free. -/
theorem Free.of_written {other : String} (hother : s.Free here other d) (hne : other ≠ id) :
    s.Free here other (written here id content d) := by
  have hkeeps := hfree.keepsDirectories_written content
  refine ⟨Disk.locate_mono hkeeps hother.file, ?_, Disk.locate_mono hkeeps hother.staging, ?_⟩
  · rw [hfree.node?_written, if_neg]
    · exact hother.noFile
    · intro heq
      exact hne (fileName_injective (List.singleton_inj.mp (List.append_cancel_left heq)))
  · rw [hfree.node?_written, if_neg]
    · exact hother.noStaging
    · intro heq
      exact stagingName_ne_fileName _ _ (List.singleton_inj.mp (List.append_cancel_left heq))

omit hfree

/-! ## Writing and loading a record

The steps on the disk are run one by one here, and nowhere else: what follows cites `run_store` and
`run_load`. -/

/-- In this world a step is taken if the disk allows it, and nothing else changes. -/
theorem run_step {kind : FileStep} {path : String} {change : Disk.Change} {w : World} {d : Disk}
    (h : w.disk.change change = some (.ok d)) :
    World.run (s.step kind path change) w = (.ok (), { w with disk := d }) := by
  have hanswer : World.answer (.change change) w = (some (.ok ()), { w with disk := d }) := by
    rw [World.answer, Disk.apply, h]
    rfl
  rw [step, World.run, Program.run_call, hanswer]
  rfl

/-- The three steps of writing a record come to one change of the disk. -/
theorem run_writeRecord {record : Record} {w : World} {d : Disk}
    (hdirs : w.disk.createDirs s.dir = .ok d) (hfree : s.Free here record.id d) :
    World.run (s.writeRecord record) w =
      (.ok (), { w with disk := written here record.id record.toJson.print d }) := by
  set content := record.toJson.print
  have hcreate : w.disk.change (.createDirs s.dir) = some (.ok d) :=
    congrArg some (Disk.mapError_eq_ok.mp hdirs)
  have hwrite : d.change (.write (Path.join s.dir (stagingName record.id)) content) =
      some (.ok (d.set (here ++ [stagingName record.id]) (.file content))) := by
    rw [Disk.change, Disk.write_new hfree.staging hfree.noStaging content]
    rfl
  -- the file is moved on the disk that has it at its first place
  set d₁ := d.set (here ++ [stagingName record.id]) (.file content)
  have hroot : here ++ [stagingName record.id] ≠ [] := List.append_ne_nil_of_right_ne_nil _ (by simp)
  have hkeeps : Disk.KeepsDirectories d d₁ :=
    Disk.keepsDirectories_set _ (by rw [hfree.noStaging]; simp)
  have hnode : d₁.node? (here ++ [stagingName record.id]) = some (.file content) := by
    rw [Disk.node?_set d hroot, if_pos rfl]
  have hnone : d₁.node? (here ++ [fileName record.id]) = none := by
    rw [Disk.node?_set d hroot, if_neg]
    · exact hfree.noFile
    · intro heq
      exact stagingName_ne_fileName _ _ (List.singleton_inj.mp (List.append_cancel_left heq)).symm
  have hrename := Disk.rename_new (Disk.locate_mono hkeeps hfree.staging)
    (Disk.locate_mono hkeeps hfree.file) hnode hnone
  rw [writeRecord, World.run, Program.run_bind_of_eq (run_step hcreate)]
  simp only
  have hstaged : World.run (s.step .write (Path.join s.dir (stagingName record.id))
      (.write (Path.join s.dir (stagingName record.id)) content)) { w with disk := d } =
        (.ok (), { w with disk := d₁ }) := run_step hwrite
  rw [Program.run_bind_of_eq hstaged]
  refine run_step ?_
  rw [Disk.change, hrename]
  rfl

/-- The path of a record is its file name below the directory of the store. -/
theorem recordPath_of_isId {id : String} (hid : ZBase32.isId id = true) :
    s.recordPath id = .ok (Path.join s.dir (fileName id)) := by
  rw [recordPath, if_pos hid]

/-- What a store makes of the reply to its one question. -/
def made (s : RecordStore) (id : String) : Option (Except Disk.Error Bytes) → Except Failure Record
  | none => .error (.timeout s.deadline)
  | some (.error why) => .error (accessFailure id (Path.join s.dir (fileName id)) why)
  | some (.ok content) => decode id (Path.join s.dir (fileName id)) content

/-- Loading a record reads its file and makes something of the reply. -/
theorem load_of_isId {id : String} (hid : ZBase32.isId id = true) :
    s.load id = .call (.read (Path.join s.dir (fileName id))) fun reply => .done (s.made id reply) := by
  rw [load, recordPath_of_isId hid]
  refine congrArg (Program.call _) (funext fun reply => ?_)
  rcases reply with _ | why | content
  · rfl
  · rfl
  · rfl

/-- In this world the reply is what the disk has, and nothing changes. -/
theorem run_load_of_isId {id : String} {w : World} (hid : ZBase32.isId id = true) :
    World.run (s.load id) w = (s.made id (w.disk.read (Path.join s.dir (fileName id))), w) := by
  rw [load_of_isId hid, World.run, Program.run_call]
  rfl

/-- A record file is loaded and found to be the one that was asked for. -/
theorem run_load {id : String} {record : Record} {content : Bytes} {w : World}
    (hid : ZBase32.isId id = true)
    (hread : w.disk.read (Path.join s.dir (fileName id)) = some (.ok content))
    (hrecord : Record.read content = .ok record) (hmagic : record.magic = Record.magicNumber)
    (hversion : record.version = Record.currentVersion) (hforeign : record.id = id) :
    World.run (s.load id) w = (.ok record, w) := by
  -- magic number, version and id are those that are asked for
  have hdecode : decode id (Path.join s.dir (fileName id)) content = .ok record := by
    rw [decode, hrecord]
    simp only
    rw [check, if_neg (not_not_intro hmagic), if_neg (not_not_intro hversion),
      if_neg (not_not_intro hforeign)]
  rw [run_load_of_isId hid, hread, made, hdecode]

/-- Loading leaves the world as it is. -/
theorem run_load_world (s : RecordStore) (id : String) (w : World) :
    (World.run (s.load id) w).2 = w := by
  unfold load
  cases s.recordPath id <;> rfl

/-- A value over the threshold is stored under the next id that is drawn. -/
theorem run_store {value : Json} {bytes : Bytes} {id : String} {w : World} {d : Disk}
    (hlarge : s.threshold < bytes.length) (hid : Record.idOf (Uuid.ofRandom w.dice.draw.1) = id)
    (hdirs : w.disk.createDirs s.dir = .ok d) (hfree : s.Free here id d) :
    World.run (s.store value bytes) w =
      (.ok (some (Record.reference id bytes)),
        { w with
          dice := w.dice.draw.2
          disk := written here id (Record.stored id bytes value).toJson.print d }) := by
  set w₁ : World := { w with dice := w.dice.draw.2 }
  have hdraw : World.run (Program.perform .draw) w = (w.dice.draw.1, w₁) := rfl
  have hwrite : World.run (s.writeRecord (Record.stored id bytes value)) w₁ =
      (.ok (), { w₁ with disk := written here id (Record.stored id bytes value).toJson.print d }) :=
    run_writeRecord hdirs hfree
  rw [store, if_neg (Nat.not_le.mpr hlarge), World.run, Program.run_bind_of_eq hdraw, hid]
  exact Program.run_bind_of_eq hwrite

end RecordStore

namespace World

/-- The next random bytes, draw by draw. -/
def Dice.draws : Nat → Dice → List Bytes
  | 0, _ => []
  | n + 1, dice => dice.draw.1 :: draws n dice.draw.2

/-- The record ids of the next draws. -/
def Dice.recordIds (n : Nat) (dice : Dice) : List String :=
  (dice.draws n).map fun draw => Record.idOf (Uuid.ofRandom draw)

end World

namespace Local

/-! ## Offloading

The state of the induction over the candidates is `Ready`: those that are left can be stored. One step
(`offloads`) stores the first and leaves the others ready. -/

/-- Every drawn id has the form of an id. -/
theorem isId_of_mem_recordIds {n : Nat} {dice : World.Dice} {id : String}
    (hdraws : ∀ draw ∈ dice.draws n, draw.length = 16) (h : id ∈ dice.recordIds n) :
    ZBase32.isId id = true := by
  obtain ⟨draw, hdraw, rfl⟩ := List.mem_map.mp h
  refine ZBase32.isId_encode ?_
  rw [Uuid.length_ofRandom]
  exact hdraws draw hdraw

/-- A world with room for a number of records: its draws are sixteen bytes and give distinct ids, the
directory can be made, and in it the places of the ids are free. -/
structure Room (s : RecordStore) (here : Disk.Place) (n : Nat) (w : World) : Prop where
  draws : ∀ draw ∈ w.dice.draws n, draw.length = 16
  distinct : (w.dice.recordIds n).Nodup
  directory : ∃ d, w.disk.createDirs s.dir = .ok d ∧
    ∀ id ∈ w.dice.recordIds n, s.Free here id d

/-- A candidate with a value over the threshold is moved into a record file under the next id, whatever
its value and its text are. The file is all that changes on the disk, and there is room for one record
less. -/
theorem run_offload_room {s : RecordStore} {here : Disk.Place} {c : Candidate} {value : Json} {n : Nat}
    {w : World} (hvalue : c.value = some value) (hlarge : s.threshold < c.bytes.length)
    (hroom : Room s here (n + 1) w) :
    ∃ id d w', (offload s c).run World.answer w =
        (.ok (some (Record.reference id c.bytes).toJson), w') ∧
      ZBase32.isId id = true ∧ Room s here n w' ∧ w.disk.createDirs s.dir = .ok d ∧
      s.Free here id d ∧
      w'.disk = RecordStore.written here id (Record.stored id c.bytes value).toJson.print d := by
  obtain ⟨hdraws, hdistinct, d, hdirs, hfree⟩ := hroom
  set id := Record.idOf (Uuid.ofRandom w.dice.draw.1) with hid
  have hids : w.dice.recordIds (n + 1) = id :: w.dice.draw.2.recordIds n := rfl
  have hisId : ZBase32.isId id = true := isId_of_mem_recordIds hdraws (List.mem_cons_self ..)
  rw [hids] at hdistinct hfree
  rw [List.nodup_cons] at hdistinct
  have hfirst := hfree id (List.mem_cons_self ..)
  set content := (Record.stored id c.bytes value).toJson.print
  set w' : World := { w with
    dice := w.dice.draw.2
    disk := RecordStore.written here id content d }
  have hstore : World.run (s.store value c.bytes) w =
      (.ok (some (Record.reference id c.bytes)), w') :=
    RecordStore.run_store hlarge hid.symm hdirs hfirst
  -- the directory is made again for every record, which changes nothing from the second time on
  have hagain : w'.disk.createDirs s.dir = .ok w'.disk :=
    Disk.createDirs_again hdirs (hfirst.keepsDirectories_written content)
  refine ⟨id, d, w', ?_, hisId, ?_, hdirs, hfirst, rfl⟩
  · rw [offload, hvalue]
    exact Program.run_bind_of_eq hstore
  · refine ⟨fun draw hdraw => hdraws draw (List.mem_cons_of_mem _ hdraw), hdistinct.2, w'.disk, hagain,
      fun other hother => ?_⟩
    have hne : other ≠ id := fun heq => hdistinct.1 (heq ▸ hother)
    exact hfirst.of_written content (hfree other (List.mem_cons_of_mem _ hother)) hne

/-- A candidate that is a field over the threshold, with a value that fits into a record. -/
structure IsField (threshold : Nat) (c : Candidate) (value : Json) : Prop where
  value_eq : c.value = some value
  bytes_eq : c.bytes = value.print
  nested : Json.Nested (Json.maxDepth - 1) value
  whole : Json.IsWhole value
  large : threshold < c.bytes.length
  inRange : c.bytes.length < Json.wordLimit

/-- A world that is ready to store candidates: its draws are sixteen bytes and give distinct ids, the
directory can be made, and in it the places of the ids are free. -/
structure Ready (s : RecordStore) (here : Disk.Place) (candidates : List Candidate) (w : World) :
    Prop where
  fields : ∀ c ∈ candidates, ∃ value, IsField s.threshold c value
  draws : ∀ draw ∈ w.dice.draws candidates.length, draw.length = 16
  distinct : (w.dice.recordIds candidates.length).Nodup
  directory : ∃ d, w.disk.createDirs s.dir = .ok d ∧
    ∀ id ∈ w.dice.recordIds candidates.length, s.Free here id d

/-- Where candidates can be stored, there is room for as many records. -/
theorem Ready.room {s : RecordStore} {here : Disk.Place} {candidates : List Candidate} {w : World}
    (h : Ready s here candidates w) : Room s here candidates.length w :=
  ⟨h.draws, h.distinct, h.directory⟩

/-- The record file of a candidate stands in the directory under an id. -/
structure Stands (s : RecordStore) (here : Disk.Place) (c : Candidate) (id : String) (w : World) :
    Prop where
  isId : ZBase32.isId id = true
  directory : w.disk.createDirs s.dir = .ok w.disk
  located : w.disk.locate (Path.join s.dir (RecordStore.fileName id)) =
    .ok ⟨here ++ [RecordStore.fileName id], false⟩
  content : ∃ value, IsField s.threshold c value ∧
    w.disk.node? (here ++ [RecordStore.fileName id]) =
      some (.file (Record.stored id c.bytes value).toJson.print)

/-- What stands for a candidate in a message. -/
def copyOf (c : Candidate) (id : String) : Json := (Record.reference id c.bytes).toJson

/-- **One candidate.** Its record file is written under the next id, and all record files that stood
before are left as they were, since the places of that id were free. -/
theorem offloads (s : RecordStore) (here : Disk.Place) :
    Message.Offloads (backend s) World.answer copyOf (Stands s here) (Ready s here) := by
  intro c rest w hready
  obtain ⟨value, hfield⟩ := hready.fields c (List.mem_cons_self ..)
  obtain ⟨id, d, w', hrun, hisId, hroom, hdirs, hfree, hdisk⟩ :=
    run_offload_room hfield.value_eq hfield.large hready.room
  set content := (Record.stored id c.bytes value).toJson.print
  have hkeeps : Disk.KeepsDirectories d w'.disk := hdisk ▸ hfree.keepsDirectories_written content
  have hagain : w'.disk.createDirs s.dir = .ok w'.disk := Disk.createDirs_again hdirs hkeeps
  have hnode : ∀ other, w'.disk.node? other =
      if other = here ++ [RecordStore.fileName id] then some (.file content) else d.node? other :=
    fun other => hdisk ▸ hfree.node?_written content other
  refine ⟨id, w', hrun, ⟨fun e he => hready.fields e (List.mem_cons_of_mem _ he), hroom.draws,
    hroom.distinct, hroom.directory⟩, ?_, ?_⟩
  · exact ⟨hisId, hagain, Disk.locate_mono hkeeps hfree.file, value, hfield,
      (hnode _).trans (if_pos rfl)⟩
  · intro e y ⟨hy, hdirectory, hlocated, other, hother, hstood⟩
    -- the directory was there, so the record was written where the others stand
    rw [hdirectory] at hdirs
    cases hdirs
    refine ⟨hy, hagain, Disk.locate_mono hkeeps hlocated, other, hother, ?_⟩
    rw [hnode, if_neg]
    · exact hstood
    · intro heq
      rw [heq, hfree.noFile] at hstood
      cases hstood

/-! ## Resolving

The copies are followed in a world where all records were written. Each load leaves the world as it is,
so they are independent of each other. -/

/-- Why the record of a candidate cannot be followed: its data is read back as none. -/
def faultOf (c : Candidate) (id : String) : Option Failure :=
  match c.value with
  | some .null => some (.invalidReference (.recordWithoutData id))
  | _ => none

variable {s : RecordStore} {here : Disk.Place} {c : Candidate} {id : String} {w : World}

/-- Following a record fails exactly if its value was kept as nothing. -/
theorem faultOf_eq {value : Json} (h : c.value = some value) :
    faultOf c id = match Record.kept value with
      | some _ => none
      | none => some (.invalidReference (.recordWithoutData id)) := by
  rw [faultOf, h]
  cases value <;> rfl

/-- **Loading.** The record file of a candidate gives back its bytes, or the fault. -/
theorem run_rehydrate (h : Stands s here c id w) (size : Nat) (path : String) :
    World.run (rehydrate s ⟨id, size, path⟩) w =
      (Message.orFault c.bytes (faultOf c id), w) := by
  obtain ⟨hid, -, hlocated, value, hfield, hnode⟩ := h
  have hload := RecordStore.run_load hid (Disk.read_file hlocated hnode)
    (Record.read_print_stored id hfield.inRange hfield.nested hfield.whole) rfl rfl rfl
  rw [rehydrate, World.run, Program.run_bind_of_eq hload, faultOf_eq hfield.value_eq]
  by_cases hnull : value = .null
  · subst hnull
    rfl
  · rw [Record.kept_of_ne hnull, hfield.bytes_eq]
    rfl

/-- Following the copy of a record gives the text of the candidate, or the fault. -/
theorem restores (h : Stands s here c id w) :
    Message.Restores (backend s) World.answer (· = w) c (copyOf c id) (faultOf c id) := by
  have hne : id ≠ "" := by
    rintro rfl
    exact absurd h.isId (by decide)
  obtain ⟨value, hfield, -⟩ := h.content
  refine ⟨_, recognize_reference hne hfield.inRange, ?_⟩
  rintro start rfl
  exact ⟨start, run_rehydrate h _ _, rfl⟩

/-- Putting copies of records into the fields of an object that is no record makes it none. -/
theorem recognize_replaced {gate : Gate} {reference : Candidate → Json} {fields : Json.Members}
    (hreference : ∀ c, ∃ members, reference c = .object members)
    (h : recognize (.object fields) = .ok none) :
    recognize (.object (gate.replaced reference fields)) = .ok none := by
  rw [recognize_eq_none_iff] at h ⊢
  exact gate.test_replaced Record.isMagicMember (fun _ => rfl) hreference h

/-! ## The round trip

Offloading and resolving are put together for an object. It comes back unless a field `null` was moved,
which needs a threshold below the length of its text. -/

/-- A world in which the candidates of a message can be stored: their sizes are 64-bit numbers; every draw
is sixteen bytes, and no record id comes twice; the directory can be made, and nothing is found there
under the names of the files to be written. -/
structure Undisturbed (s : RecordStore) (candidates : List Candidate) (w : World) : Prop where
  inRange : ∀ c ∈ candidates, c.bytes.length < Json.wordLimit
  draws : ∀ draw ∈ w.dice.draws candidates.length, draw.length = 16
  distinct : (w.dice.recordIds candidates.length).Nodup
  directory : ∃ d, w.disk.createDirs s.dir = .ok d ∧
    ∀ id ∈ w.dice.recordIds candidates.length,
      d.read (Path.join s.dir (RecordStore.fileName id)) = some (.error .notFound) ∧
      d.read (Path.join s.dir (RecordStore.stagingName id)) = some (.error .notFound)

/-- A field of the message is `null` and over the threshold. -/
def MovesNull (threshold : Nat) (fields : Json.Members) : Prop :=
  threshold < 4 ∧ ∃ field ∈ fields, field.2 = .null

theorem length_print_null : Json.null.print.length = 4 := by decide

/-- Among the fields of a message, only `null` is not followed. -/
theorem faultOf_candidate (field : String × Json) (id : String) (failure : Failure) :
    faultOf (Gate.candidate field) id = some failure ↔
      field.2 = .null ∧ failure = .invalidReference (.recordWithoutData id) := by
  rw [faultOf_eq (show (Gate.candidate field).value = some field.2 from rfl)]
  by_cases hnull : field.2 = .null
  · rw [hnull]
    simp [Record.kept, eq_comm]
  · rw [Record.kept_of_ne hnull]
    simp [hnull]

/-- A field `null` has four bytes, so only a lower threshold moves it. -/
theorem selects_null {gate : Gate} {field : String × Json} (hnull : field.2 = .null) :
    gate.selects field = true ↔ gate.threshold < 4 := by
  rw [Gate.selects, Gate.exceeds, hnull, length_print_null, decide_eq_true_iff]

section

variable {gate : Gate} {message : Bytes} {fields : Json.Members}
  (hread : Json.read? message = some (.object fields)) (idOf : String → String)

include hread

/-- Where a field `null` is moved, some record cannot be followed. -/
theorem exists_fault (h : MovesNull gate.threshold fields) :
    ∃ id, ((gate.candidates message).findSome? fun c => faultOf c (idOf c.fieldPath)) =
      some (.invalidReference (.recordWithoutData id)) := by
  rw [gate.candidates_object hread]
  obtain ⟨hsmall, field, hfield, hnull⟩ := h
  -- the first fault need not be that of the given field, but it is one of the same kind
  cases hsome : ((fields.filter gate.selects).map Gate.candidate).findSome?
      fun c => faultOf c (idOf c.fieldPath) with
  | none =>
    have hcandidate : Gate.candidate field ∈ (fields.filter gate.selects).map Gate.candidate :=
      Gate.candidate_mem hfield ((selects_null hnull).mpr hsmall)
    have hfault := List.findSome?_eq_none_iff.mp hsome _ hcandidate
    rw [(faultOf_candidate field _ _).mpr ⟨hnull, rfl⟩] at hfault
    cases hfault
  | some failure =>
    obtain ⟨c, hc, hfault⟩ := List.exists_of_findSome?_eq_some hsome
    obtain ⟨other, -, rfl⟩ := List.mem_map.mp hc
    obtain ⟨-, rfl⟩ := (faultOf_candidate other _ _).mp hfault
    exact ⟨_, rfl⟩

/-- Where none is, all of them can. -/
theorem no_fault (h : ¬ MovesNull gate.threshold fields) :
    ((gate.candidates message).findSome? fun c => faultOf c (idOf c.fieldPath)) = none := by
  rw [gate.candidates_object hread, List.findSome?_eq_none_iff]
  intro c hc
  obtain ⟨field, hfield, rfl⟩ := List.mem_map.mp hc
  obtain ⟨hfield, hselects⟩ := List.mem_filter.mp hfield
  rw [Option.eq_none_iff_forall_ne_some]
  intro failure hfault
  obtain ⟨hnull, -⟩ := (faultOf_candidate field _ _).mp hfault
  exact h ⟨(selects_null hnull).mp hselects, field, hfield, hnull⟩

/-- The candidates of an object are fields that fit into records. -/
theorem isField_of_mem_candidates (hwhole : Json.IsWhole (.object fields))
    (hc : c ∈ gate.candidates message) (hsize : c.bytes.length < Json.wordLimit) :
    ∃ value, IsField gate.threshold c value := by
  have hlarge := Gate.lt_of_mem_candidates hc
  obtain ⟨-, hnested⟩ := Json.field_nested hread
  rw [gate.candidates_object hread] at hc
  obtain ⟨field, hfield, rfl⟩ := List.mem_map.mp hc
  have hin := (List.mem_filter.mp hfield).1
  exact ⟨field.2, rfl, rfl, hnested field hin, hwhole.member hin, hlarge, hsize⟩

end

/-- A world in which the candidates can be stored has room for their records. -/
theorem Undisturbed.room {candidates : List Candidate} (h : Undisturbed s candidates w) :
    ∃ here, Room s here candidates.length w := by
  obtain ⟨d, hdirs, hfree⟩ := h.directory
  obtain ⟨-, here, hmade⟩ := Disk.made_of_createDirs hdirs
  refine ⟨here, h.draws, h.distinct, d, hdirs, fun id hid => ?_⟩
  obtain ⟨hfile, hstaging⟩ := hfree id hid
  exact .of_notFound hmade (isId_of_mem_recordIds h.draws hid) hfile hstaging

/-- So what is asked of a world at the start is enough for all candidates in turn. -/
theorem Undisturbed.ready {candidates : List Candidate} (h : Undisturbed s candidates w)
    (hfields : ∀ c ∈ candidates, ∃ value, IsField s.threshold c value) :
    ∃ here, Ready s here candidates w := by
  obtain ⟨here, hroom⟩ := h.room
  exact ⟨here, hfields, hroom.draws, hroom.distinct, hroom.directory⟩

/-- **The local round trip.** Offloading an object succeeds and puts the copy of a record in the place of
every field over the threshold. If a field `null` was moved, resolving what the object was turned into
fails, for a record without data. If none was, resolving gives the object back: byte for byte if nothing
was moved, and else its compact text. -/
theorem resolve_offload_object (s : RecordStore) (message : Bytes) (fields : Json.Members) (w : World)
    (hread : Json.read? message = some (.object fields)) (hwhole : Json.IsWhole (.object fields))
    (hcalm : Undisturbed s ((Gate.mk s.threshold).candidates message) w)
    (hplain : recognize (.object fields) = .ok none)
    (hsmall : ∀ field ∈ fields, field.2.print.length ≤ s.threshold →
      recognize field.2 = .ok none) :
    ∃ (idOf : String → String) (message' : Bytes) (w' : World),
      message' = (Gate.mk s.threshold).rewritten (fun c => copyOf c (idOf c.fieldPath)) message ∧
      World.run (Message.offload (backend s) message) w = (.ok message', w') ∧
      (MovesNull s.threshold fields → ∃ id,
        World.run (Message.resolve (backend s) message') w' =
          (.error (.invalidReference (.recordWithoutData id)), w')) ∧
      (¬ MovesNull s.threshold fields →
        World.run (Message.resolve (backend s) message') w' =
          (.ok ((Gate.mk s.threshold).canonical message), w')) := by
  set gate := Gate.mk s.threshold
  have hthreshold : gate.threshold = s.threshold := rfl
  obtain ⟨here, hready⟩ := hcalm.ready fun c hc =>
    isField_of_mem_candidates hread hwhole hc (hcalm.inRange c hc)
  -- all records stand when the last one has been written
  obtain ⟨idOf, w', hoffload, -, hstands⟩ := Message.run_offload (offloads s here) hready
  obtain ⟨w'', hresolve, rfl⟩ : ∃ w'',
      World.run (Message.resolve (backend s)
          (gate.rewritten (fun c => copyOf c (idOf c.fieldPath)) message)) w' =
        (Message.orFault (gate.canonical message)
          ((gate.candidates message).findSome? fun c => faultOf c (idOf c.fieldPath)), w'') ∧
          w'' = w' :=
    Message.run_resolve_object hread hwhole
      (fun c hc => ⟨(Record.nested_reference _ _).mono (by decide),
        Record.isWhole_reference _ (hcalm.inRange c hc)⟩)
      (recognize_replaced (fun c => ⟨_, rfl⟩) hplain)
      (fun field hfield hselects => hsmall field hfield
        (Nat.not_lt.mp (of_decide_eq_false hselects)))
      (fun c hc => restores (hstands c hc)) rfl
  rw [← hthreshold]
  refine ⟨idOf, _, w'', rfl, hoffload, fun hnull => ?_, fun hnone => ?_⟩
  · obtain ⟨id, hfault⟩ := exists_fault hread idOf hnull
    rw [hfault] at hresolve
    exact ⟨id, hresolve⟩
  · rw [no_fault hread idOf hnone] at hresolve
    exact hresolve

/-! ## A field that does not come back -/

/-- A store that moves everything above one byte. -/
def smallest : RecordStore := ⟨"records", 1, ⟨10⟩⟩

/-- A world of which nothing has been used, with an empty disk. -/
def blank : World := ⟨⟨[], 0⟩, .clear, 0, [], .empty 0, .nobody, .fresh [], []⟩

theorem recordIds_blank : blank.dice.recordIds 1 = ["yyyyyyyyybyybyyyyyyyyyyyyr"] := by decide

/-- An object with `null` in it goes, and does not come back. -/
theorem resolve_offload_null :
    ∃ (idOf : String → String) (message' : Bytes) (w' : World) (id : String),
      message' = (Gate.mk 1).rewritten (fun c => copyOf c (idOf c.fieldPath))
        (Json.object [("a", .null)]).print ∧
      World.run (Message.offload (backend smallest) (Json.object [("a", .null)]).print) blank =
        (.ok message', w') ∧
      World.run (Message.resolve (backend smallest) message') w' =
        (.error (.invalidReference (.recordWithoutData id)), w') := by
  -- the message, its candidate and the disk, as the theorem wants them
  have hnested : Json.Nested Json.maxDepth (.object [("a", .null)]) := by
    refine .object _ _ (by simp) fun m hm => ?_
    rw [List.mem_singleton] at hm
    subst hm
    exact .null _
  have hwhole : Json.IsWhole (.object [("a", .null)]) := by
    refine .object _ fun m hm => ?_
    rw [List.mem_singleton] at hm
    subst hm
    exact .null
  have hread := Json.read?_print hnested hwhole
  have hcandidates : (Gate.mk 1).candidates (Json.object [("a", .null)]).print =
      [Gate.candidate ("a", .null)] := by
    rw [Gate.candidates_object _ hread, List.filter_cons_of_pos (by decide), List.filter_nil]
    rfl
  have hcalm : Undisturbed smallest
      ((Gate.mk smallest.threshold).candidates (Json.object [("a", .null)]).print) blank := by
    show Undisturbed smallest ((Gate.mk 1).candidates _) blank
    rw [hcandidates]
    refine ⟨fun c hc => ?_, by decide, ?_, ⟨[(["records"], .directory)], []⟩, by decide +kernel,
      fun id hid => ?_⟩
    · rw [List.mem_singleton] at hc
      subst hc
      decide
    · show (blank.dice.recordIds 1).Nodup
      rw [recordIds_blank]
      exact List.nodup_singleton _
    · replace hid : id ∈ blank.dice.recordIds 1 := hid
      rw [recordIds_blank, List.mem_singleton] at hid
      subst hid
      decide +kernel
  obtain ⟨idOf, message', w', hmessage, hoffload, hfails, -⟩ := resolve_offload_object smallest _ _ blank hread
    hwhole hcalm ((recognize_eq_none_iff _).mpr (by decide))
    (fun field hfield _ => by
      rw [List.mem_singleton] at hfield
      subst hfield
      rfl)
  -- the one field is `null`, which is what the record cannot hold
  obtain ⟨id, hresolve⟩ := hfails ⟨by decide, ("a", .null), List.mem_singleton_self _, rfl⟩
  exact ⟨idOf, message', w', id, hmessage, hoffload, hresolve⟩

end Local

end Stowage
