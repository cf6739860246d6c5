import Stowage.Proofs.Backend.Local
import Stowage.Proofs.Disk.Trail
/-!
# Stowage — the calls of a record store

What each call of a record store does on a disk on which nothing is in its way (`Usable`), given what
is at the place of the record that the call is about: nothing, or the file of an intact record. Only
storing and deleting change the disk, and they say at which places.
-/

namespace Stowage.RecordStore

/-- Nothing is in the way of a store: its directory is there or can be made, and the paths of record
files can be taken apart. -/
structure Usable (s : RecordStore) (d : Disk) : Prop where
  passable : d.Passable s.dir
  file : ∀ id, ZBase32.isId id = true → d.Named s.dir (fileName id)
  staging : ∀ id, ZBase32.isId id = true → d.Named s.dir (stagingName id)

/-- Content of a file that is the record with an id. -/
structure Intact (id : String) (record : Record) (content : Bytes) : Prop where
  read : Record.read content = .ok record
  magic : record.magic = Record.magicNumber
  version : record.version = Record.currentVersion
  id_eq : record.id = id

/-- Why there is no record with an id: none was found, or none can have it. -/
def absence (id : String) : Failure :=
  if ZBase32.isId id then .notFound id else .invalidReference (.malformedId id)

variable {s : RecordStore} {id : String} {w : World}

/-! ## Paths -/

/-- An id that is none has no path. -/
theorem recordPath_of_not_isId (hid : ¬ ZBase32.isId id = true) :
    s.recordPath id = .error (absence id) := by
  rw [recordPath, if_neg hid, absence, if_neg hid]

theorem accessFailure_notFound (hid : ZBase32.isId id = true) (path : String) :
    accessFailure id path .notFound = absence id := by
  rw [absence, if_pos hid]
  rfl

/-- A store below a path that is short enough is usable. -/
theorem usable_of_short {d : Disk} (hpass : d.Passable s.dir) (hzero : '\x00' ∉ s.dir.toList)
    (hlength : s.dir.utf8ByteSize + Disk.maxName < Disk.maxPath) : s.Usable d := by
  have hnamed : ∀ id suffix : String, ZBase32.isId id = true → '/' ∉ suffix.toList →
      '\x00' ∉ suffix.toList → suffix.toList.length ≤ 8 → d.Named s.dir (id ++ suffix) := by
    intro id suffix hid hslash hsuffix hshort
    have hsize := Disk.utf8ByteSize_le (id ++ suffix)
    rw [String.toList_append, List.length_append, length_of_isId hid] at hsize
    have hid : '\x00' ∉ id.toList := by
      intro hmem
      have hall := List.all_eq_true.mp (of_decide_eq_true hid).2 '\x00' hmem
      exact absurd hall (by decide)
    have hidLength : ZBase32.idLength = 26 := rfl
    have hmaxName : Disk.maxName = 255 := rfl
    refine Disk.named_of_short (plain_append ‹_› hslash) hzero ?_ (by omega) (by omega)
    rw [String.toList_append, List.mem_append]
    exact fun hmem => hmem.elim hid hsuffix
  exact ⟨hpass, fun id hid => hnamed id ".lmo" hid (by decide) (by decide) (by decide),
    fun id hid => hnamed id ".lmo.tmp" hid (by decide) (by decide) (by decide)⟩

/-! ## Loading and deleting

On a disk in memory each call has one outcome, and it depends on whether there is a file at the place of
the record. -/

theorem run_load_absent (hs : s.Usable w.disk)
    (h : ZBase32.isId id = true → w.disk.node? (w.disk.home s.dir ++ [fileName id]) = none) :
    World.run (s.load id) w = (.error (absence id), w) := by
  by_cases hid : ZBase32.isId id = true
  -- the disk is asked only for an id that is well-formed
  · have hread := Disk.read_absent hs.passable (plain_fileName hid) (hs.file id hid) (h hid)
    rw [run_load_of_isId hid, hread, made, accessFailure_notFound hid]
  · rw [load, recordPath_of_not_isId hid]
    rfl

/-- A record that is there and intact is loaded. -/
theorem run_load_present {record : Record} {content : Bytes} (hs : s.Usable w.disk)
    (hid : ZBase32.isId id = true) (hpresent : w.disk.Present s.dir)
    (hfile : w.disk.node? (w.disk.home s.dir ++ [fileName id]) = some (.file content))
    (hintact : Intact id record content) : World.run (s.load id) w = (.ok record, w) :=
  run_load hid (Disk.read_file
    (Disk.locate_made hs.passable (plain_fileName hid) (hs.file id hid) hpresent) hfile)
    hintact.read hintact.magic hintact.version hintact.id_eq

theorem run_delete_absent (hs : s.Usable w.disk)
    (h : ZBase32.isId id = true → w.disk.node? (w.disk.home s.dir ++ [fileName id]) = none) :
    World.run (s.delete id) w = (.error (absence id), w) := by
  by_cases hid : ZBase32.isId id = true
  · have hremove := Disk.remove_absent hs.passable (plain_fileName hid) (hs.file id hid) (h hid)
    have hanswer : World.answer (.change (.remove (Path.join s.dir (fileName id)))) w =
        (some (.error .notFound), w) := by
      rw [World.answer, Disk.apply, Disk.change, hremove]
      rfl
    rw [delete, recordPath_of_isId hid, World.run]
    simp only
    rw [Program.run_call, hanswer]
    simp only [accessFailure_notFound hid]
    rfl
  · rw [delete, recordPath_of_not_isId hid]
    rfl

/-- A record that is there is deleted. -/
theorem run_delete_present {content : Bytes} (hs : s.Usable w.disk)
    (hid : ZBase32.isId id = true) (hpresent : w.disk.Present s.dir)
    (hfile : w.disk.node? (w.disk.home s.dir ++ [fileName id]) = some (.file content)) :
    World.run (s.delete id) w =
      (.ok (), { w with disk := w.disk.erase (w.disk.home s.dir ++ [fileName id]) }) := by
  have hremove := Disk.remove_file
    (Disk.locate_made hs.passable (plain_fileName hid) (hs.file id hid) hpresent) hfile
  have hanswer : World.answer (.change (.remove (Path.join s.dir (fileName id)))) w =
      (some (.ok ()), { w with disk := w.disk.erase (w.disk.home s.dir ++ [fileName id]) }) := by
    rw [World.answer, Disk.apply, Disk.change, hremove]
    rfl
  rw [delete, recordPath_of_isId hid, World.run]
  simp only
  rw [Program.run_call, hanswer]
  rfl

/-! ## Storing

Under the threshold nothing is stored. Above it the record is put at its place, which must be free, and
so must be the place beside it. -/

theorem run_store_small {value : Json} {bytes : Bytes} (h : bytes.length ≤ s.threshold) :
    World.run (s.store value bytes) w = (.ok none, w) := by
  rw [store, if_pos h]
  rfl

/-- The disk after a record has been stored: the directory is there, and the file of the record. -/
structure Stored (s : RecordStore) (id : String) (content : Bytes) (d d' : Disk) : Prop where
  working : d'.working = d.working
  node?_eq : ∀ place, d'.node? place =
    if place = d.home s.dir ++ [fileName id] then some (.file content)
    else if place ∈ d.trailOf s.dir then some .directory else d.node? place

/-- Nothing is at the place of a file, and nothing will be when the directory is made. -/
def Unused (s : RecordStore) (d : Disk) (file : String) : Prop :=
  d.home s.dir ++ [file] ∉ d.trailOf s.dir ∧ d.node? (d.home s.dir ++ [file]) = none

/-- **Storing** a value over the threshold, where nothing is at the places of the next id. -/
theorem run_store_large {value : Json} {bytes : Bytes} (hs : s.Usable w.disk)
    (hlarge : s.threshold < bytes.length) (hid : ZBase32.isId id = true)
    (hdraw : Record.idOf (Uuid.ofRandom w.dice.draw.1) = id)
    (hfile : s.Unused w.disk (fileName id)) (hstaging : s.Unused w.disk (stagingName id)) :
    ∃ d', World.run (s.store value bytes) w =
        (.ok (some (Record.reference id bytes)), { w with dice := w.dice.draw.2, disk := d' }) ∧
      Stored s id (Record.stored id bytes value).toJson.print w.disk d' := by
  obtain ⟨d, hdirs⟩ := Disk.createDirs_iff.mpr hs.passable
  obtain ⟨hworking, hnode⟩ := Disk.node?_createDirs hdirs
  have hpresent := Disk.present_createDirs hdirs
  have hhome := Disk.home_of_working hworking s.dir
  have hpass := Disk.passable_createDirs hdirs
  -- on the disk with the directory, the places of the id are free
  have hnoFile : d.node? (w.disk.home s.dir ++ [fileName id]) = none := by
    rw [hnode, if_neg hfile.1]
    exact hfile.2
  have hnoStaging : d.node? (w.disk.home s.dir ++ [stagingName id]) = none := by
    rw [hnode, if_neg hstaging.1]
    exact hstaging.2
  have hfree : s.Free (w.disk.home s.dir) id d := by
    rw [← hhome] at hnoFile hnoStaging ⊢
    exact ⟨Disk.locate_made hpass (plain_fileName hid) ((hs.file id hid).of_working hworking) hpresent,
      hnoFile, Disk.locate_made hpass (plain_stagingName hid)
        ((hs.staging id hid).of_working hworking) hpresent, hnoStaging⟩
  refine ⟨_, run_store hlarge hdraw hdirs hfree, hworking, fun place => ?_⟩
  rw [hfree.node?_written, hnode]

end Stowage.RecordStore
