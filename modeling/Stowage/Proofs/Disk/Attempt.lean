import Stowage.Proofs.Disk.Trail
import Stowage.Proofs.Program
import Stowage.World
/-!
# Stowage — changes that fail

A change to files that fails, or is not answered in time, may have done a part of what it was to do: some
of the directories, some of the content of a file (`Part`). On a disk that can fail at any moment
(`faulty`) every change may end so (`Attempt`); the disk in memory is such a disk (`ends_run`). What a
change does is confined to the places that it names (`Confined`), also where it fails.
-/

namespace Stowage

namespace Disk

/-! ## What an attempt may come to

Every change either is carried out or leaves a part of itself behind, and the answer may be lost. A disk
in memory fails in fewer ways than this; all of its failures are among them. -/

/-- `Part d step d'`: what a change has done that did not get to its end. Renaming and removing have no
parts. -/
inductive Part (d : Disk) : Change → Disk → Prop where
  | nothing (step : Change) : Part d step d
  | directories {path : String} {r : Route} {d' : Disk} (count : Nat) (hroute : d.route path = .ok r)
      (h : d.createDirsFrom false r.start (r.names.take count) = .ok d') :
      Part d (.createDirs path) d'
  | content {path : String} {content : Bytes} {d' : Disk} (count : Nat)
      (h : d.write path (content.take count) = some (.ok d')) : Part d (.write path content) d'

/-- `Attempt d step reply d'`: how a change may be answered by a disk that can fail at any moment, and
what has happened to the disk. A change that is not answered in time may be carried out all the same. -/
inductive Attempt (d : Disk) (step : Change) : Option (Except Error Unit) → Disk → Prop where
  | carried {d' : Disk} (h : d.change step = some (.ok d')) : Attempt d step (some (.ok ())) d'
  | broken {d' : Disk} (why : Error) (h : Part d step d') : Attempt d step (some (.error why)) d'
  | late {d' : Disk} (h : Part d step d' ∨ d.change step = some (.ok d')) : Attempt d step none d'

section

variable {d d' : Disk} {e : Error}

/-- Where directories cannot be made, those before them have been. Induction on the names that are
left. -/
theorem createDirsFrom_error (names : List String) :
    ∀ {d : Disk} {begun : Bool} {here : Place},
      d.createDirsFrom begun here names = .error (e, d') →
        ∃ count, d.createDirsFrom begun here (names.take count) = .ok d' := by
  induction names with
  | nil =>
    intro d begun here h
    cases h
  -- each name is too long, missing, a directory, or in the way; only the first and the last stop
  -- the walk
  | cons name rest ih =>
    intro d begun here h
    rw [createDirsFrom] at h
    split at h
    · cases h
      exact ⟨0, rfl⟩
    · next hshort =>
      split at h
      · next hnone =>
        obtain ⟨count, hcount⟩ := ih h
        refine ⟨count + 1, ?_⟩
        rw [List.take_succ_cons, createDirsFrom, if_neg hshort, hnone]
        exact hcount
      · next hdirectory =>
        obtain ⟨count, hcount⟩ := ih h
        refine ⟨count + 1, ?_⟩
        rw [List.take_succ_cons, createDirsFrom, if_neg hshort, hdirectory]
        exact hcount
      · cases h
        exact ⟨0, rfl⟩

/-- Directories of which some cannot be made leave those before. -/
theorem Part.of_makeDirs_error {path : String} (h : d.makeDirs path = .error (e, d')) :
    Part d (.createDirs path) d' := by
  unfold makeDirs at h
  split at h
  · cases h
  · cases hroute : d.route path with
    | error why =>
      rw [hroute] at h
      cases h
      exact .nothing _
    | ok r =>
      rw [hroute] at h
      obtain ⟨count, hcount⟩ := createDirsFrom_error _ h
      exact .directories count hroute hcount

/-- All of it is a part, too. -/
theorem Part.of_makeDirs {path : String} (h : d.makeDirs path = .ok d') :
    Part d (.createDirs path) d' := by
  obtain ⟨rfl | ⟨r, hroute⟩, hwalk⟩ := createDirs_eq_ok.mp (mapError_eq_ok.mpr h)
  · rw [namesOf_empty, createDirsFrom] at hwalk
    cases hwalk
    exact .nothing _
  · refine .directories r.names.length hroute ?_
    rw [List.take_length, route_eq_ok hroute]
    exact hwalk

/-- A file that was written is a part in which nothing is missing. -/
theorem Part.of_write {path : String} {content : Bytes}
    (h : d.write path content = some (.ok d')) : Part d (.write path content) d' := by
  refine .content content.length ?_
  rw [List.take_length]
  exact h

theorem mapError_eq_error {α : Type} {result : Except Error α}
    (h : result.mapError (·, d) = .error (e, d')) : d' = d := by
  cases result with
  | error why =>
    cases h
    rfl
  | ok a => cases h

/-- However making directories ends, a part of it has been done. -/
theorem Attempt.part_createDirs {path : String} {reply : Option (Except Error Unit)}
    (h : Attempt d (.createDirs path) reply d') : Part d (.createDirs path) d' := by
  cases h with
  | carried hchange => exact .of_makeDirs (Option.some.inj hchange)
  | broken why hpart => exact hpart
  | late hlate => exact hlate.elim (·) fun hchange => .of_makeDirs (Option.some.inj hchange)

theorem change_write {path : String} {content : Bytes}
    (h : d.change (.write path content) = some (.ok d')) : d.write path content = some (.ok d') := by
  obtain ⟨result, hwrite, hresult⟩ := Option.map_eq_some_iff.mp h
  rw [hwrite, mapError_eq_ok.mp hresult]

/-- However writing a file ends, a part of it has been done. -/
theorem Attempt.part_write {path : String} {content : Bytes} {reply : Option (Except Error Unit)}
    (h : Attempt d (.write path content) reply d') : Part d (.write path content) d' := by
  cases h with
  | carried hchange => exact .of_write (change_write hchange)
  | broken why hpart => exact hpart
  | late hlate => exact hlate.elim (·) fun hchange => .of_write (change_write hchange)

/-- **The disk in memory** makes attempts as a disk that can fail does. -/
theorem attempt_apply (d : Disk) (step : Change) :
    Attempt d step (d.apply step).1 (d.apply step).2 := by
  rw [apply]
  cases hchange : d.change step with
  | none => exact .late (.inl (.nothing _))
  | some result =>
    cases result with
    | ok d' => exact .carried hchange
    | error failure =>
      obtain ⟨why, d'⟩ := failure
      refine .broken why ?_
      cases step with
      | createDirs path => exact .of_makeDirs_error (Option.some.inj hchange)
      | write path content =>
        obtain ⟨result, -, hresult⟩ := Option.map_eq_some_iff.mp hchange
        exact mapError_eq_error hresult ▸ .nothing _
      | rename source target => exact mapError_eq_error (Option.some.inj hchange) ▸ .nothing _
      | remove path => exact mapError_eq_error (Option.some.inj hchange) ▸ .nothing _

end

/-! ## What a change is confined to

Directories and files are counted apart: a directory is only ever made where nothing was, while anything
may happen to a file at a place that a change names. -/

/-- `Confined dirs touched d d'`: nothing has happened but that directories of one list were made where
nothing was, and whatever happened at the places of the other. -/
structure Confined (dirs touched : List Place) (d d' : Disk) : Prop where
  working : d'.working = d.working
  node? : ∀ place ∉ touched, d'.node? place = d.node? place ∨
    place ∈ dirs ∧ d.node? place = none ∧ d'.node? place = some .directory

section

variable {dirs touched more : List Place} {d d' d'' : Disk}

theorem Confined.refl (dirs touched : List Place) (d : Disk) : Confined dirs touched d d :=
  ⟨rfl, fun _ _ => .inl rfl⟩

theorem Confined.trans (h : Confined dirs touched d d') (h' : Confined dirs touched d' d'') :
    Confined dirs touched d d'' := by
  refine ⟨h'.working.trans h.working, fun place hplace => ?_⟩
  rcases h.node? place hplace with heq | ⟨hmem, hnone, hmade⟩
  · rw [← heq]
    exact h'.node? place hplace
  -- a directory that was made is there to stay
  · rcases h'.node? place hplace with heq' | ⟨-, hnone', -⟩
    · exact .inr ⟨hmem, hnone, heq'.trans hmade⟩
    · rw [hmade] at hnone'
      cases hnone'

theorem Confined.mono (h : Confined dirs touched d d') (hmore : touched ⊆ more) :
    Confined dirs more d d' :=
  ⟨h.working, fun place hplace => h.node? place fun hmem => hplace (hmore hmem)⟩

/-- What is under a name in a directory, unless that is a directory again. -/
def entry? (d : Disk) (here : Place) (name : String) : Option Node :=
  (d.node? (here ++ [name])).filter (· ≠ .directory)

/-- Files and pipes at places that are not touched stay, and none come. -/
theorem Confined.entry? (h : Confined dirs touched d d') {here : Place} {name : String}
    (hname : here ++ [name] ∉ touched) : d'.entry? here name = d.entry? here name := by
  rw [Disk.entry?, Disk.entry?]
  rcases h.node? _ hname with heq | ⟨-, hnone, hmade⟩
  · rw [heq]
  · rw [hnone, hmade]
    rfl

/-- A place in neither list stays as it is. -/
theorem Confined.node?_of_not_mem (h : Confined dirs touched d d') {place : Place}
    (htouched : place ∉ touched) (hdirs : place ∉ dirs) : d'.node? place = d.node? place :=
  (h.node? place htouched).resolve_right fun hmade => hdirs hmade.1

theorem confined_set {place : Place} (hplace : place ≠ []) (node : Node)
    (hmem : place ∈ touched) : Confined dirs touched d (d.set place node) := by
  refine ⟨rfl, fun other hother => .inl ?_⟩
  rw [node?_set d hplace, if_neg]
  rintro rfl
  exact hother hmem

/-- Making directories is confined to the trail. -/
theorem confined_createDirsFrom {begun : Bool} {here : Place} {names : List String}
    (h : d.createDirsFrom begun here names = .ok d') : Confined (trail here names) [] d d' := by
  obtain ⟨hclear, hworking, hnode⟩ := createDirsFrom_trail h
  refine ⟨hworking, fun place _ => ?_⟩
  rw [hnode]
  split
  · next hmem =>
    rcases hclear.free place hmem with hnone | hdirectory
    · exact .inr ⟨hmem, hnone, rfl⟩
    · exact .inl hdirectory.symm
  · exact .inl rfl

/-- A walk that stops early has come by places of the whole walk. -/
theorem mem_trail_take {place here : Place} {names : List String} {count : Nat}
    (h : place ∈ trail here (names.take count)) : place ∈ trail here names := by
  rw [← List.take_append_drop count names, trail_append]
  exact List.mem_append_left _ h

/-- **Making a directory**, as far as it goes, is confined to the places that lead to it. -/
theorem Part.confined_createDirs {path : String} (h : Part d (.createDirs path) d') :
    Confined (d.trailOf path) [] d d' := by
  cases h with
  | nothing => exact .refl _ _ _
  | directories count hroute h =>
    rw [route_eq_ok hroute] at h
    have hconfined := confined_createDirsFrom h
    refine ⟨hconfined.working, fun place hplace => ?_⟩
    exact (hconfined.node? place hplace).imp_right fun ⟨hmem, hmade⟩ => ⟨mem_trail_take hmem, hmade⟩

end

/-! ## Files below a directory

What a change that succeeded must have done. The place of a file depends on its path and on the working
directory, and not on what else is on the disk. -/

section

variable {d d' : Disk} {path source target dir name : String} {content : Bytes}

/-- A file that was written is where its path leads, and no directory was there. -/
theorem write_eq_ok (h : d.write path content = some (.ok d')) :
    ∃ place, d.locate path = .ok ⟨place, false⟩ ∧ d.node? place ≠ some .directory ∧
      d' = d.set place (.file content) := by
  unfold write at h
  cases hlocate : d.locate path with
  | error e =>
    rw [hlocate] at h
    cases h
  | ok file =>
    obtain ⟨place, wants⟩ := file
    rw [hlocate] at h
    simp only at h
    cases wants with
    | true =>
      -- a path that asks for a directory is never written to
      split at h <;> cases h
    | false =>
      refine ⟨place, rfl, ?_⟩
      split at h
      · cases h
      · cases h
      · next hnode =>
        cases h
        exact ⟨by rw [hnode]; simp, rfl⟩
      · next hnode =>
        cases h
        exact ⟨by rw [hnode]; simp, rfl⟩

/-- What was renamed is no directory, and has taken the place of none. -/
theorem rename_eq_ok (h : d.rename source target = .ok d') :
    ∃ place place' node, d.locate source = .ok ⟨place, false⟩ ∧
      d.locate target = .ok ⟨place', false⟩ ∧ d.node? place = some node ∧ node ≠ .directory ∧
      d.node? place' ≠ some .directory ∧ d' = (d.erase place).set place' node := by
  unfold rename at h
  cases hsource : d.locate source with
  | error e =>
    rw [hsource] at h
    cases h
  | ok file =>
    cases htarget : d.locate target with
    | error e =>
      rw [hsource, htarget] at h
      cases h
    | ok file' =>
      obtain ⟨place, wants⟩ := file
      obtain ⟨place', wants'⟩ := file'
      rw [hsource, htarget] at h
      -- of all the ways through the checks, one ends well
      simp only [bind, Except.bind] at h
      split at h
      · cases h
      · cases h
      · next node hne hnode =>
        split at h
        · cases h
        · next hfree =>
          split at h
          · cases h
          · next hwants =>
            cases h
            simp only [not_or, Bool.not_eq_true] at hwants
            obtain ⟨rfl, rfl⟩ := hwants
            exact ⟨place, place', node, rfl, rfl, hnode, hne, hfree, rfl⟩

theorem remove_eq_ok (h : d.remove path = .ok d') :
    ∃ place, d.locate path = .ok ⟨place, false⟩ ∧ d.node? place ≠ some .directory ∧
      d' = d.erase place := by
  unfold remove at h
  cases hlocate : d.locate path with
  | error e =>
    rw [hlocate] at h
    cases h
  | ok file =>
    obtain ⟨place, wants⟩ := file
    rw [hlocate] at h
    -- of all the ways through the checks, one ends well
    simp only [bind, Except.bind] at h
    split at h
    · cases h
    · cases h
    · next hne hnode =>
      split at h
      · cases h
      · next hwants =>
        cases h
        rw [Bool.not_eq_true] at hwants
        subst hwants
        exact ⟨place, rfl, fun heq => hne (Option.some.inj (hnode.symm.trans heq)), rfl⟩

variable (hplain : Plain name)

include hplain

/-- A file below a directory is written to its own place. -/
theorem write_join_eq_ok (h : d.write (Path.join dir name) content = some (.ok d')) :
    d' = d.set (home d dir ++ [name]) (.file content) := by
  obtain ⟨place, hlocate, -, rfl⟩ := write_eq_ok h
  cases locate_join_eq_ok hplain hlocate
  rfl

/-- **Writing a file**, as far as it goes, is confined to the place of the file. -/
theorem Part.confined_write {dirs touched : List Place}
    (h : Part d (.write (Path.join dir name) content) d') (hmem : home d dir ++ [name] ∈ touched) :
    Confined dirs touched d d' := by
  cases h with
  | nothing => exact .refl _ _ _
  | content count h =>
    rw [write_join_eq_ok hplain h]
    exact confined_set (List.append_ne_nil_of_right_ne_nil _ (by simp)) _ hmem

/-- A file below a directory is renamed from its own place to its own place. -/
theorem rename_join_eq_ok {other : String} (hother : Plain other)
    (h : d.rename (Path.join dir name) (Path.join dir other) = .ok d') :
    ∃ node, d.node? (home d dir ++ [name]) = some node ∧
      d' = (d.erase (home d dir ++ [name])).set (home d dir ++ [other]) node := by
  obtain ⟨place, place', node, hsource, htarget, hnode, -, -, rfl⟩ := rename_eq_ok h
  cases locate_join_eq_ok hplain hsource
  cases locate_join_eq_ok hother htarget
  exact ⟨node, hnode, rfl⟩

/-- A file below a directory is removed from its own place. -/
theorem remove_join_eq_ok (h : d.remove (Path.join dir name) = .ok d') :
    d' = d.erase (home d dir ++ [name]) := by
  obtain ⟨place, hlocate, -, rfl⟩ := remove_eq_ok h
  cases locate_join_eq_ok hplain hlocate
  rfl

end

/-! ## A disk that can fail at any moment

Proofs about what survives a failure are made for this disk, where any call may go wrong. The world in
memory, with its log and its dice, then is one of the ways it can go. -/

/-- The calls on a disk that can fail at any moment. A file is read as it is, or not; nothing is said of
what comes over calls that are not about files. -/
def faulty : Program.Choosing Disk
  | .draw, d, (bytes : Bytes), d' => bytes.length = 16 ∧ d' = d
  | .read path, d, (reply : Option (Except Error Bytes)), d' =>
    (reply = d.read path ∨ reply = none ∨ ∃ why, reply = some (.error why)) ∧ d' = d
  | .change step, d, reply, d' => d.Attempt step reply d'
  | _, d, _, d' => d' = d

end Disk

namespace World

/-- The random bytes that are given are enough for a draw each. -/
def Dice.Whole (dice : Dice) : Prop := ∀ bytes ∈ dice.given, bytes.length = 16

/-- A draw takes sixteen bytes, and leaves dice that still have enough for each draw. -/
theorem Dice.Whole.draw {dice : Dice} (h : dice.Whole) :
    dice.draw.1.length = 16 ∧ dice.draw.2.Whole := by
  obtain ⟨given, drawn⟩ := dice
  cases given with
  | nil => exact ⟨by simp [Dice.draw, bigEndian], fun _ hmem => absurd hmem List.not_mem_nil⟩
  | cons bytes given =>
    exact ⟨h bytes (List.mem_cons_self ..), fun other hmem => h other (List.mem_cons_of_mem _ hmem)⟩

/-- A call over the link, or to a peer, has nothing to do with the disk and the dice. -/
structure Aside (w w' : World) : Prop where
  disk : w'.disk = w.disk
  dice : w'.dice = w.dice

theorem aside_sendOut {α : Type} (w : World) (request : Except Chunk.HttpFailure Chunk.Endpoint.Outgoing)
    (outcome : Url → Except Http.Fault Http.Response → Except Chunk.CallError α) :
    Aside w (w.sendOut request outcome).2 := by
  cases request with
  | error why => exact ⟨rfl, rfl⟩
  | ok out => exact ⟨rfl, rfl⟩

theorem aside_hostStore (r : Chunk.StoreRequest) (w : World) : Aside w (hostStore r w).2 := by
  rw [hostStore]
  split
  · exact aside_sendOut ..
  · exact ⟨rfl, rfl⟩

theorem aside_hostGet (r : Chunk.GetRequest) (w : World) : Aside w (hostGet r w).2 := by
  rw [hostGet]
  split
  · exact aside_sendOut ..
  · exact ⟨rfl, rfl⟩

theorem aside_overLink {α : Type} (w : World) (entry : LogEntry) (patience : Nat)
    (scripted : Chunk.Window → α) {host : World → Except Chunk.CallError α × World}
    (h : ∀ w, Aside w (host w).2) : Aside w (w.overLink entry patience scripted host).2 := by
  unfold overLink
  simp only
  split
  · exact ⟨rfl, rfl⟩
  · split
    · exact ⟨rfl, rfl⟩
    · exact ⟨rfl, rfl⟩
    · exact ⟨rfl, rfl⟩
    · exact ⟨(h _).disk, (h _).dice⟩

/-- **Runs in memory.** A program that runs in memory ends as on a disk that can fail. -/
theorem ends_run {α : Type} (p : Program α) {w : World} (hdice : w.dice.Whole) :
    Program.Ends Disk.faulty p w.disk (p.exchanges answer w) (run p w).1 (run p w).2.disk := by
  refine Program.ends_run World.disk (fun w => w.dice.Whole) ?_ ?_ p w hdice
  -- first that every answer in memory is one of the failing disk, then that it leaves enough dice
  · intro c w hw
    cases c with
    | draw => exact ⟨hw.draw.1, rfl⟩
    | store r patience => exact (aside_overLink w _ _ _ (aside_hostStore r)).disk
    | get r patience => exact (aside_overLink w _ _ _ (aside_hostGet r)).disk
    | send place request patience => rfl
    | input => rfl
    | read path => exact ⟨.inl rfl, rfl⟩
    | change step => exact Disk.attempt_apply w.disk step
    | listen port maximum => rfl
  · intro c w hw
    cases c with
    | draw => exact hw.draw.2
    | store r patience =>
      have haside := aside_overLink w (.store r.ref r.offset r.data.length r.total r.isLast) patience
        (fun _ => ()) (aside_hostStore r)
      exact haside.dice ▸ hw
    | get r patience =>
      have haside := aside_overLink w (.get r.ref r.offset r.length) patience id (aside_hostGet r)
      exact haside.dice ▸ hw
    | send place request patience => exact hw
    | input => exact hw
    | read path => exact hw
    | change step => exact hw
    | listen port maximum => exact hw

end World

end Stowage
