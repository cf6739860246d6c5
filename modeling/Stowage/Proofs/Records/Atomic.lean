import Stowage.Proofs.Backend.Local
import Stowage.Proofs.Disk.Attempt
/-!
# Stowage — storing is all or nothing

A record is written beside its place and then renamed. However storing it ends, on a disk that can fail
at any moment, the record is in its place and complete, or nothing has changed but the directory of the
store and the file beside the place (`writeRecord_cases`, `store_cases`, `store_atomic`); a run in
memory is one of the ways to end (`leaves_run_store`). The file beside the place is never come to again:
loading and deleting pass by it, whichever id they are asked for (`passesBy_staging`). The write can
really be cut short anywhere (`ends_store_cut`).
-/

namespace Stowage.RecordStore

open Disk (faulty Confined)

variable {s : RecordStore} {id : String} {d d' : Disk} {log : List Program.Exchange}

/-! ## The steps of storing

Storing makes the directory, writes the record beside its place and renames it. Each step is one change
to the disk and may end in any way in which a change can; only the last one touches the place of a
record. -/

/-- A step is one change, and succeeds if the change does. -/
theorem attempt_of_step {kind : FileStep} {path : String} {change : Disk.Change}
    {result : Except Failure Unit}
    (h : Program.Ends faulty (s.step kind path change) d log result d') :
    ∃ reply, log = [⟨.change change, reply⟩] ∧ d.Attempt change reply d' ∧
      ((result = .ok () ∧ reply = some (.ok ())) ∨
        ∃ failure, result = .error failure ∧ reply ≠ some (.ok ())) := by
  obtain ⟨reply, d₁, rest, rfl, hattempt, hdone⟩ := Program.ends_call.mp h
  obtain ⟨rfl, rfl, rfl⟩ := Program.ends_done.mp hdone
  refine ⟨reply, rfl, hattempt, ?_⟩
  match reply with
  | none => exact .inr ⟨_, rfl, nofun⟩
  | some (.error why) => exact .inr ⟨_, rfl, nofun⟩
  | some (.ok ()) => exact .inl ⟨rfl, rfl⟩

/-- The directory of the store, made or not, is all that the first step changes. -/
theorem confined_create {path : String} {result : Except Failure Unit}
    (h : Program.Ends faulty (s.step .create path (.createDirs s.dir)) d log result d') :
    Confined (d.trailOf s.dir) [] d d' := by
  obtain ⟨reply, -, hattempt, -⟩ := attempt_of_step h
  exact hattempt.part_createDirs.confined_createDirs

/-- The file beside the place of a record is all that the second step changes; it has all of its content
if the step is carried out. -/
theorem confined_write {path : String} {content : Bytes} {result : Except Failure Unit}
    (hid : ZBase32.isId id = true)
    (h : Program.Ends faulty
      (s.step .write path (.write (Path.join s.dir (stagingName id)) content)) d log result d') :
    Confined (d.trailOf s.dir) [d.home s.dir ++ [stagingName id]] d d' ∧
      (result = .ok () →
        d'.node? (d.home s.dir ++ [stagingName id]) = some (.file content)) := by
  have hplain := plain_stagingName hid
  obtain ⟨reply, -, hattempt, ⟨rfl, rfl⟩ | ⟨failure, rfl, -⟩⟩ := attempt_of_step h
  · refine ⟨hattempt.part_write.confined_write hplain (List.mem_singleton_self _), fun _ => ?_⟩
    cases hattempt with
    | carried hchange =>
      rw [Disk.write_join_eq_ok hplain (Disk.change_write hchange),
        Disk.node?_set d (List.append_ne_nil_of_right_ne_nil _ (by simp)), if_pos rfl]
  · refine ⟨hattempt.part_write.confined_write hplain (List.mem_singleton_self _), fun hok => ?_⟩
    cases hok

/-- `Published s id content d d'`: the record file with an id is in its place with all of its content,
and what was beside it is gone. -/
structure Published (s : RecordStore) (id : String) (content : Bytes) (d d' : Disk) : Prop where
  confined : Confined (d.trailOf s.dir)
    [d.home s.dir ++ [stagingName id], d.home s.dir ++ [fileName id]] d d'
  file : d'.node? (d.home s.dir ++ [fileName id]) = some (.file content)
  staging : d'.node? (d.home s.dir ++ [stagingName id]) = none

/-- A record that is still being written is at another place than any record. -/
theorem place_ne (here here' : Disk.Place) (id other : String) :
    here ++ [stagingName id] ≠ here' ++ [fileName other] := by
  intro heq
  exact stagingName_ne_fileName _ _ (List.singleton_inj.mp (List.append_inj_right' heq rfl))

/-- **The renaming** puts what is beside the place of a record in its place. -/
theorem published_rename {content : Bytes} {d₁ : Disk} (hid : ZBase32.isId id = true)
    (hconfined : Confined (d.trailOf s.dir) [d.home s.dir ++ [stagingName id]] d d₁)
    (hfile : d₁.node? (d.home s.dir ++ [stagingName id]) = some (.file content))
    (h : d₁.change (.rename (Path.join s.dir (stagingName id)) (Path.join s.dir (fileName id))) =
      some (.ok d')) : Published s id content d d' := by
  have hrename := Disk.mapError_eq_ok.mp (Option.some.inj h)
  obtain ⟨node, hnode, rfl⟩ :=
    Disk.rename_join_eq_ok (plain_stagingName hid) (plain_fileName hid) hrename
  rw [Disk.home_of_working hconfined.working] at hnode ⊢
  have hnode : Disk.Node.file content = node := Option.some.inj (hfile.symm.trans hnode)
  subst hnode
  -- the two places differ, so what the renaming takes away is not what it puts
  have hroot : ∀ name, d.home s.dir ++ [name] ≠ [] := fun _ =>
    List.append_ne_nil_of_right_ne_nil _ (by simp)
  refine ⟨⟨hconfined.working, fun place hplace => ?_⟩, ?_, ?_⟩
  · simp only [List.mem_cons, List.not_mem_nil, or_false, not_or] at hplace
    rw [Disk.node?_set _ (hroot _), if_neg hplace.2, Disk.node?_erase _ (hroot _), if_neg hplace.1]
    exact hconfined.node? place (by simpa using hplace.1)
  · rw [Disk.node?_set _ (hroot _), if_pos rfl]
  · rw [Disk.node?_set _ (hroot _), if_neg (place_ne _ _ _ _), Disk.node?_erase _ (hroot _),
      if_pos rfl]

/-- A renaming was asked for, and not answered in time. -/
def RenamingLate (log : List Program.Exchange) : Prop :=
  ∃ source target, (⟨.change (.rename source target), none⟩ : Program.Exchange) ∈ log

theorem renamingLate_singleton (source target : String) :
    RenamingLate [⟨.change (.rename source target), none⟩] :=
  ⟨source, target, List.mem_singleton_self _⟩

theorem RenamingLate.mono {more : List Program.Exchange} (h : RenamingLate log) (hmore : log ⊆ more) :
    RenamingLate more := by
  obtain ⟨source, target, hmem⟩ := h
  exact ⟨source, target, hmore hmem⟩

/-- **Writing a record.** The record is in its place; or nothing has changed but the directory and what
is beside the place of the record, unless the renaming was asked for and not answered in time. -/
theorem writeRecord_cases {record : Record} {result : Except Failure Unit}
    (hid : ZBase32.isId record.id = true)
    (h : Program.Ends faulty (s.writeRecord record) d log result d') :
    (result = .ok () ∧ Published s record.id record.toJson.print d d') ∨
      ∃ failure, result = .error failure ∧
        (Confined (d.trailOf s.dir) [d.home s.dir ++ [stagingName record.id]] d d' ∨
          RenamingLate log ∧ Published s record.id record.toJson.print d d') := by
  obtain ⟨first, rest, created, d₁, rfl, hcreate, h⟩ := Program.ends_bind.mp h
  have hmade := (confined_create hcreate).mono
    (List.nil_subset [d.home s.dir ++ [stagingName record.id]])
  cases created with
  | error failure =>
    obtain ⟨rfl, rfl, rfl⟩ := Program.ends_done.mp h
    exact .inr ⟨failure, rfl, .inl hmade⟩
  | ok _ =>
    obtain ⟨second, third, staged, d₂, rfl, hwrite, h⟩ := Program.ends_bind.mp h
    obtain ⟨hstaged, hfile⟩ := confined_write hid hwrite
    rw [Disk.home_of_working hmade.working, Disk.trailOf_of_working hmade.working] at hstaged
    rw [Disk.home_of_working hmade.working] at hfile
    replace hstaged := hmade.trans hstaged
    cases staged with
    | error failure =>
      obtain ⟨rfl, rfl, rfl⟩ := Program.ends_done.mp h
      exact .inr ⟨failure, rfl, .inl hstaged⟩
    | ok _ =>
      have hpublished : d₂.change (.rename (Path.join s.dir (stagingName record.id))
          (Path.join s.dir (fileName record.id))) = some (.ok d') →
          Published s record.id record.toJson.print d d' :=
        published_rename hid hstaged (hfile rfl)
      obtain ⟨reply, rfl, hattempt, ⟨rfl, rfl⟩ | ⟨failure, rfl, hreply⟩⟩ := attempt_of_step h
      · cases hattempt with
        | carried hchange => exact .inl ⟨rfl, hpublished hchange⟩
      · cases hattempt with
        | carried hchange => exact absurd rfl hreply
        -- no part of a renaming is done
        | broken why hpart =>
          cases hpart with
          | nothing => exact .inr ⟨failure, rfl, .inl hstaged⟩
        | late hlate =>
          rcases hlate with hpart | hchange
          · cases hpart with
            | nothing => exact .inr ⟨failure, rfl, .inl hstaged⟩
          · have hlate := renamingLate_singleton (Path.join s.dir (stagingName record.id))
              (Path.join s.dir (fileName record.id))
            exact .inr ⟨failure, rfl, .inr ⟨hlate.mono fun _ hmem =>
              List.mem_append_right _ (List.mem_append_right _ hmem), hpublished hchange⟩⟩

/-! ## The place beside a record

What lies beside the place of a record has a name that is no name of a record, so no store takes it for
one. -/

/-- `t.PassesBy place`: a store does not come to a place when it loads and deletes, whichever id it is
asked for. It reads from other places, and what it makes of them does not depend on this one, unless
the way to its directory leads over it; and it removes nothing there. -/
structure PassesBy (t : RecordStore) (place : Disk.Place) : Prop where
  loads : ∀ {id d log result d'}, Program.Ends faulty (t.load id) d log result d' →
    d' = d ∧ ∀ path reply file, (⟨.read path, reply⟩ : Program.Exchange) ∈ log →
      d.locate path = .ok file → file.place ≠ place
  blind : ∀ {id log result} {d d' : Disk}, d'.working = d.working →
    (∀ other, other ≠ place → d'.node? other = d.node? other) → place ∉ d.trailOf t.dir →
      Program.Ends faulty (t.load id) d log result d →
        Program.Ends faulty (t.load id) d' log result d'
  deletes : ∀ {id d log result d'}, Program.Ends faulty (t.delete id) d log result d' →
    d'.node? place = d.node? place

/-- A record has a path if its id is one. -/
theorem recordPath_eq_ok {t : RecordStore} {path : String} (h : t.recordPath id = .ok path) :
    ZBase32.isId id = true ∧ path = Path.join t.dir (fileName id) := by
  unfold recordPath at h
  split at h
  · next hid =>
    cases h
    exact ⟨hid, rfl⟩
  · cases h

section

variable {t : RecordStore}

/-- Loading changes nothing, and reads no other file than that of the record. -/
theorem load_log {result : Except Failure Record}
    (h : Program.Ends faulty (t.load id) d log result d') :
    d' = d ∧ ∀ e ∈ log, ZBase32.isId id = true ∧
      ∃ reply, e = ⟨.read (Path.join t.dir (fileName id)), reply⟩ := by
  unfold load at h
  cases hpath : t.recordPath id with
  | error failure =>
    rw [hpath] at h
    obtain ⟨rfl, -, rfl⟩ := Program.ends_done.mp h
    exact ⟨rfl, fun _ hmem => absurd hmem List.not_mem_nil⟩
  | ok path =>
    obtain ⟨hid, rfl⟩ := recordPath_eq_ok hpath
    rw [hpath] at h
    obtain ⟨reply, d₁, rest, rfl, ⟨-, rfl⟩, hdone⟩ := Program.ends_call.mp h
    obtain ⟨rfl, -, rfl⟩ := Program.ends_done.mp hdone
    exact ⟨rfl, fun e hmem => ⟨hid, reply, List.mem_singleton.mp hmem⟩⟩

/-- Loading ends in the same ways where the file of the record reads the same. -/
theorem ends_load_congr {result : Except Failure Record}
    (hread : ZBase32.isId id = true →
      d'.read (Path.join t.dir (fileName id)) = d.read (Path.join t.dir (fileName id)))
    (h : Program.Ends faulty (t.load id) d log result d) :
    Program.Ends faulty (t.load id) d' log result d' := by
  unfold load at h ⊢
  cases hpath : t.recordPath id with
  | error failure =>
    rw [hpath] at h
    obtain ⟨rfl, rfl, -⟩ := Program.ends_done.mp h
    exact .done _ _
  | ok path =>
    obtain ⟨hid, rfl⟩ := recordPath_eq_ok hpath
    rw [hpath] at h
    obtain ⟨reply, d₁, rest, rfl, ⟨hreply, rfl⟩, hdone⟩ := Program.ends_call.mp h
    obtain ⟨rfl, rfl, -⟩ := Program.ends_done.mp hdone
    rw [← hread hid] at hreply
    exact .call ⟨hreply, rfl⟩ (.done _ _)

/-- Deleting removes the file of the record, or nothing. -/
theorem delete_cases {result : Except Failure Unit}
    (h : Program.Ends faulty (t.delete id) d log result d') :
    d' = d ∨ d' = d.erase (d.home t.dir ++ [fileName id]) := by
  unfold delete at h
  cases hpath : t.recordPath id with
  | error failure =>
    rw [hpath] at h
    obtain ⟨-, -, rfl⟩ := Program.ends_done.mp h
    exact .inl rfl
  | ok path =>
    obtain ⟨hid, rfl⟩ := recordPath_eq_ok hpath
    rw [hpath] at h
    obtain ⟨reply, d₁, rest, rfl, hattempt, hdone⟩ := Program.ends_call.mp h
    obtain ⟨-, -, rfl⟩ := Program.ends_done.mp hdone
    have herase : d.change (.remove (Path.join t.dir (fileName id))) = some (.ok d') →
        d' = d.erase (d.home t.dir ++ [fileName id]) := fun hchange =>
      Disk.remove_join_eq_ok (plain_fileName hid) (Disk.mapError_eq_ok.mp (Option.some.inj hchange))
    -- deleting has no parts, so it was carried out or it was not
    cases hattempt with
    | carried hchange => exact .inr (herase hchange)
    | broken why hpart =>
      cases hpart with
      | nothing => exact .inl rfl
    | late hlate =>
      rcases hlate with hpart | hchange
      · cases hpart with
        | nothing => exact .inl rfl
      · exact .inr (herase hchange)

end

/-- **The place beside a record** is passed by, by its own store and all others. -/
theorem passesBy_staging (t : RecordStore) (here : Disk.Place) (id : String) :
    t.PassesBy (here ++ [stagingName id]) := by
  refine ⟨fun h => ?_, fun hworking hsame htrail h => ?_, fun h => ?_⟩
  · obtain ⟨rfl, hlog⟩ := load_log h
    refine ⟨rfl, fun path reply file hmem hlocate => ?_⟩
    obtain ⟨hid, reply', heq⟩ := hlog _ hmem
    cases heq
    rw [Disk.locate_join_eq_ok (plain_fileName hid) hlocate]
    exact (place_ne _ _ _ _).symm
  -- neither the way to the file of a record nor the file is at the place
  · exact ends_load_congr (fun hid => Disk.read_congr (plain_fileName hid) hworking
      (fun place hplace => hsame place fun heq => htrail (heq ▸ hplace))
      (hsame _ (place_ne _ _ _ _).symm)) h
  · rcases delete_cases h with rfl | rfl
    · rfl
    · rw [Disk.node?_erase _ (List.append_ne_nil_of_right_ne_nil _ (by simp)),
        if_neg (place_ne _ _ _ _)]

/-! ## Storing

However it ends, a run of the three steps leaves the other files alone. The only ending that is not
known is a renaming that was issued and not answered. -/

/-- A record file that is still being written does not count among the record files. -/
theorem not_endsWith_stagingName (id : String) : (stagingName id).endsWith ".lmo" = false := by
  rw [Bool.eq_false_iff, Ne, Disk.endsWith_iff]
  intro hsuffix
  have hstaging : ".lmo.tmp".toList = ['.', 'l', 'm', 'o', '.', 't', 'm', 'p'] := by decide
  have hfile : ".lmo".toList = ['.', 'l', 'm', 'o'] := by decide
  rw [stagingName, String.toList_append, hstaging, hfile, ← List.reverse_prefix] at hsuffix
  simp at hsuffix

/-- `s.KeepsFiles names d d'`: the record files in the directory of a store are what they were, but for
those with some names. Directories that are named like record files are what they were as well, unless
the path of the store climbs back from one of them. -/
structure KeepsFiles (s : RecordStore) (names : List String) (d d' : Disk) : Prop where
  file : ∀ name, name.endsWith ".lmo" = true → name ∉ names →
    d'.entry? (d.home s.dir) name = d.entry? (d.home s.dir) name
  entry : ".." ∉ Disk.namesOf s.dir → ∀ name, name.endsWith ".lmo" = true → name ∉ names →
    d'.node? (d.home s.dir ++ [name]) = d.node? (d.home s.dir ++ [name])

theorem KeepsFiles.of_confined {names : List String} (h : Confined (d.trailOf s.dir)
      ((d.home s.dir ++ [stagingName id]) :: names.map (d.home s.dir ++ [·])) d d') :
    s.KeepsFiles names d d' := by
  have htouched : ∀ name, name.endsWith ".lmo" = true → name ∉ names → d.home s.dir ++ [name] ∉
      (d.home s.dir ++ [stagingName id]) :: names.map (d.home s.dir ++ [·]) := by
    intro name hname hmem
    have hstaging : name ≠ stagingName id := by
      rintro rfl
      rw [not_endsWith_stagingName] at hname
      cases hname
    simp [hstaging, hmem]
  exact ⟨fun name hname hmem => h.entry? (htouched name hname hmem),
    fun hdots name hname hmem =>
      h.node?_of_not_mem (htouched name hname hmem) (Disk.not_mem_trailOf hdots name)⟩

/-- `Leaves s id value bytes d result d'`: what storing a value under an id has done to a disk, by the way
it ended. -/
inductive Leaves (s : RecordStore) (id : String) (value : Json) (bytes : Bytes) (d : Disk) :
    Except Failure (Option Record) → Disk → Prop where
  | inline : Leaves s id value bytes d (.ok none) d
  | stored {d' : Disk} (h : Published s id (Record.stored id bytes value).toJson.print d d')
      (hfiles : s.KeepsFiles [fileName id] d d') :
      Leaves s id value bytes d (.ok (some (Record.reference id bytes))) d'
  | failed {d' : Disk} (failure : Failure)
      (h : Confined (d.trailOf s.dir) [d.home s.dir ++ [stagingName id]] d d')
      (hfiles : s.KeepsFiles [] d d') : Leaves s id value bytes d (.error failure) d'

/-- Sixteen random bytes make a record id. -/
theorem isId_idOf {draw : Bytes} (h : draw.length = 16) :
    ZBase32.isId (Record.idOf (Uuid.ofRandom draw)) = true := by
  refine ZBase32.isId_encode ?_
  rw [Uuid.length_ofRandom, h]

/-- **Storing**, however it ends. -/
theorem store_cases {value : Json} {bytes : Bytes} {result : Except Failure (Option Record)}
    (h : Program.Ends faulty (s.store value bytes) d log result d') :
    ∃ id, ZBase32.isId id = true ∧
      (∀ draw rest, log = ⟨.draw, draw⟩ :: rest → id = Record.idOf (Uuid.ofRandom draw)) ∧
      (Leaves s id value bytes d result d' ∨
        RenamingLate log ∧ Published s id (Record.stored id bytes value).toJson.print d d') := by
  unfold store at h
  split at h
  -- under the threshold nothing is drawn, and any id will do
  · obtain ⟨rfl, rfl, rfl⟩ := Program.ends_done.mp h
    have hlength : (List.replicate 16 (0 : UInt8)).length = 16 := by decide
    refine ⟨_, isId_idOf hlength, fun draw rest hlog => ?_, .inl .inline⟩
    cases hlog
  · obtain ⟨first, rest, draw, d₁, rfl, hdraw, hrest⟩ := Program.ends_bind.mp h
    obtain ⟨drawn, d₂, none, rfl, ⟨hlength, rfl⟩, hdone⟩ := Program.ends_call.mp hdraw
    obtain ⟨rfl, rfl, rfl⟩ := Program.ends_done.mp hdone
    have hid := isId_idOf hlength
    obtain ⟨id, hidOf⟩ : ∃ id, Record.idOf (Uuid.ofRandom draw) = id := ⟨_, rfl⟩
    rw [hidOf] at hid hrest
    refine ⟨id, hid, fun draw' rest' hlog => ?_, ?_⟩
    · cases hlog
      exact hidOf.symm
    · obtain ⟨second, third, written, d₃, rfl, hwrite, hlast⟩ := Program.ends_bind.mp hrest
      have hid' : ZBase32.isId (Record.stored id bytes value).id = true := hid
      -- the record was written, was not, or was renamed into place without an answer
      rcases writeRecord_cases hid' hwrite with
        ⟨rfl, hpublished⟩ | ⟨failure, rfl, hconfined | ⟨hlate, hpublished⟩⟩
      · obtain ⟨rfl, rfl, rfl⟩ := Program.ends_done.mp hlast
        exact .inl (.stored hpublished (.of_confined hpublished.confined))
      · obtain ⟨rfl, rfl, rfl⟩ := Program.ends_done.mp hlast
        exact .inl (.failed failure hconfined (.of_confined hconfined))
      · obtain ⟨rfl, rfl, rfl⟩ := Program.ends_done.mp hlast
        exact .inr ⟨hlate.mono fun _ hmem =>
          List.mem_append_right _ (List.mem_append_left _ hmem), hpublished⟩

/-- **Storing in memory**, where each renaming is answered. -/
theorem leaves_run_store (s : RecordStore) (value : Json) (bytes : Bytes) {w : World}
    (hdice : w.dice.Whole) :
    ∃ id, ZBase32.isId id = true ∧ Leaves s id value bytes w.disk
      (World.run (s.store value bytes) w).1 (World.run (s.store value bytes) w).2.disk := by
  obtain ⟨id, hid, -, hleaves | ⟨⟨source, target, hlate⟩, -⟩⟩ :=
    store_cases (World.ends_run (s.store value bytes) hdice)
  · exact ⟨id, hid, hleaves⟩
  · obtain ⟨w', hreply⟩ := Program.exists_reply_eq hlate
    cases hrename : w'.disk.rename source target <;>
      simp [World.answer, Disk.apply, Disk.change, hrename, Except.mapError] at hreply

/-- **Storing is all or nothing.** However storing a value ends on a disk that can fail at any moment, as
long as a renaming that was asked for is answered: if the record is given back, its file is in its
place and complete, and no other record file has changed; else no record file has changed at all,
and no more than the directory of the store and the file beside the place of the record is new or
different. No store ever comes to that file to load or to delete. -/
theorem store_atomic {value : Json} {bytes : Bytes} {result : Except Failure (Option Record)}
    (h : Program.Ends faulty (s.store value bytes) d log result d') (hrenaming : ¬ RenamingLate log) :
    ∃ id, ZBase32.isId id = true ∧
      (∀ draw rest, log = ⟨.draw, draw⟩ :: rest → id = Record.idOf (Uuid.ofRandom draw)) ∧
      Leaves s id value bytes d result d' ∧
      ∀ t : RecordStore, t.PassesBy (d.home s.dir ++ [stagingName id]) := by
  obtain ⟨id, hid, hdraw, hleaves⟩ := store_cases h
  have hleaves := hleaves.resolve_right fun hlate => hrenaming hlate.1
  exact ⟨id, hid, hdraw, hleaves, fun t => passesBy_staging t _ id⟩

/-! ## A write that is cut short -/

/-- What storing a value under an id asks of a disk that breaks off the write. -/
def cutLog (s : RecordStore) (id : String) (value : Json) (bytes : Bytes) (why : Disk.Error) :
    List Program.Exchange :=
  [⟨.change (.createDirs s.dir), some (.ok ())⟩,
    ⟨.change (.write (Path.join s.dir (stagingName id)) (Record.stored id bytes value).toJson.print),
      some (.error why)⟩]

/-- The write may be broken off anywhere. -/
theorem ends_store_cut {value : Json} {bytes draw : Bytes} {d₁ : Disk} (why : Disk.Error) (count : Nat)
    (hlarge : s.threshold < bytes.length) (hlength : draw.length = 16)
    (hid : Record.idOf (Uuid.ofRandom draw) = id) (hcreate : d.makeDirs s.dir = .ok d₁)
    (hwrite : d₁.write (Path.join s.dir (stagingName id))
      ((Record.stored id bytes value).toJson.print.take count) = some (.ok d')) :
    Program.Ends faulty (s.store value bytes) d (⟨.draw, draw⟩ :: cutLog s id value bytes why)
      (.error (.transport 0 (.file .write (Path.join s.dir (stagingName id)) why))) d' := by
  set path := Path.join s.dir (stagingName id)
  -- the directory is made, and the write stops after some bytes
  have hfirst : Program.Ends faulty (s.step .create s.dir (.createDirs s.dir)) d
      [⟨.change (.createDirs s.dir), some (.ok ())⟩] (.ok ()) d₁ :=
    .call (.carried (congrArg some hcreate)) (.done _ _)
  have hsecond : Program.Ends faulty
      (s.step .write path (.write path (Record.stored id bytes value).toJson.print)) d₁
      [⟨.change (.write path (Record.stored id bytes value).toJson.print), some (.error why)⟩]
      (.error (.transport 0 (.file .write path why))) d' :=
    .call (.broken why (.content count hwrite)) (.done _ _)
  have hrecord : Program.Ends faulty (s.writeRecord (Record.stored id bytes value)) d
      (cutLog s id value bytes why) (.error (.transport 0 (.file .write path why))) d' :=
    Program.ends_bind.mpr ⟨_, _, _, _, rfl, hfirst,
      Program.ends_bind.mpr ⟨_, [], _, _, rfl, hsecond, .done _ _⟩⟩
  have hdraw : Program.Ends faulty (Program.perform .draw) d [⟨.draw, draw⟩] draw d :=
    .call ⟨hlength, rfl⟩ (.done _ _)
  rw [store, if_neg (Nat.not_le.mpr hlarge)]
  refine Program.ends_bind.mpr ⟨_, _, _, _, rfl, hdraw, ?_⟩
  rw [hid]
  exact Program.ends_bind.mpr ⟨_, [], _, _, rfl, hrecord, .done _ _⟩

theorem not_renamingLate_cut {value : Json} {bytes draw : Bytes} {why : Disk.Error} :
    ¬ RenamingLate (⟨.draw, draw⟩ :: cutLog s id value bytes why) := by
  rintro ⟨source, target, hmem⟩
  rcases List.mem_cons.mp hmem with heq | hmem
  · cases heq
  · rcases List.mem_cons.mp hmem with heq | hmem
    · cases heq
    · cases List.mem_singleton.mp hmem

/-- A disk with one record file on it. -/
def keeping : Disk := ⟨[(["records", "old.lmo"], .file [1]), (["records"], .directory)], []⟩

/-- The error of a disk without room. -/
def full : Disk.Error := .other 28 "No space left on device"

/-- The disk is full, and a record is cut short in the middle of its first key. -/
theorem store_atomic_cut :
    ∃ log result d', Program.Ends faulty (Local.smallest.store (.bool true) (Json.bool true).print)
        keeping log result d' ∧ ¬ RenamingLate log ∧
      d'.nodes = (["records", "yyyyyyyyybyybyyyyyyyyyyyyr.lmo.tmp"],
        .file [0x7b, 0x22, 0x6d, 0x61, 0x67]) :: keeping.nodes ∧
      ∃ id, ZBase32.isId id = true ∧
        (∀ draw rest, log = ⟨.draw, draw⟩ :: rest → id = Record.idOf (Uuid.ofRandom draw)) ∧
        Leaves Local.smallest id (.bool true) (Json.bool true).print keeping result d' ∧
        ∀ t : RecordStore, t.PassesBy (keeping.home "records" ++ [stagingName id]) := by
  have hlarge : Local.smallest.threshold < (Json.bool true).print.length := by decide
  have hlength : (World.bigEndian 1).length = 16 := by decide
  have hid : Record.idOf (Uuid.ofRandom (World.bigEndian 1)) = "yyyyyyyyybyybyyyyyyyyyyyyr" := by
    decide
  -- the directory is there, and the file to be written is not
  have hcreate : keeping.makeDirs Local.smallest.dir = .ok keeping := by decide +kernel
  have hlocate : keeping.locate (Path.join Local.smallest.dir (stagingName "yyyyyyyyybyybyyyyyyyyyyyyr")) =
      .ok ⟨["records", "yyyyyyyyybyybyyyyyyyyyyyyr.lmo.tmp"], false⟩ := by decide +kernel
  have hwrite := Disk.write_new hlocate (by decide)
    ((Record.stored "yyyyyyyyybyybyyyyyyyyyyyyr" (Json.bool true).print (.bool true)).toJson.print.take 5)
  have hcut := ends_store_cut full 5 hlarge hlength hid hcreate hwrite
  refine ⟨_, _, _, hcut, not_renamingLate_cut, ?_, store_atomic hcut not_renamingLate_cut⟩
  decide +kernel

end Stowage.RecordStore
