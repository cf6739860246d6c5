import Mathlib.Tactic.Common
import Stowage.Disk.Basic
import Stowage.Proofs.Assoc
/-!
# Stowage — files in a directory

What a record store relies on. A directory that was made stays made (`createDirs_made`), a name in it
is found at its own place (`locate_join`), and writing and renaming files changes nothing but the
files that are named (`node?_set`, `node?_erase`) and no directory (`KeepsDirectories`), so that what
was found before is found again (`locate_mono`).
-/

namespace Stowage.Disk

/-! ## Nodes

A disk is a map from places to nodes. The root is a directory whatever the map says, so the lemmas set
it apart. -/

theorem node?_root (d : Disk) : d.node? [] = some .directory := rfl

/-- Below the root, what is at a place is what the map has there. -/
theorem node?_of_ne (d : Disk) {place : Place} (h : place ≠ []) :
    d.node? place = Assoc.find? d.nodes place := by
  rw [node?, if_neg h]

/-- Putting something at a place leaves the other places as they are. -/
theorem node?_set (d : Disk) {place : Place} (hplace : place ≠ []) (node : Node) (other : Place) :
    (d.set place node).node? other = if other = place then some node else d.node? other := by
  by_cases hroot : other = []
  · subst hroot
    rw [node?_root, node?_root, if_neg (Ne.symm hplace)]
  · rw [node?_of_ne _ hroot, node?_of_ne _ hroot]
    show Assoc.find? ((place, node) :: d.nodes.filter fun n => n.1 != place) other = _
    by_cases hother : other = place
    · subst hother
      rw [Assoc.find?_cons_self, if_pos rfl]
    · rw [Assoc.find?_cons_of_ne _ _ (Ne.symm hother), Assoc.find?_filter_ne, if_neg hother,
        if_neg hother]

/-- Taking something away leaves the other places as they are. -/
theorem node?_erase (d : Disk) {place : Place} (hplace : place ≠ []) (other : Place) :
    (d.erase place).node? other = if other = place then none else d.node? other := by
  by_cases hroot : other = []
  · subst hroot
    rw [node?_root, node?_root, if_neg (Ne.symm hplace)]
  · rw [node?_of_ne _ hroot, node?_of_ne _ hroot]
    exact Assoc.find?_filter_ne d.nodes place other

/-! ## Directories that stay

Files come and go, and a path goes through directories only. So a path keeps its meaning under every
change that keeps the directories, and a change is asked for no more than that. -/

/-- Every directory of the first disk is one of the second, which has the same working directory. -/
structure KeepsDirectories (d d' : Disk) : Prop where
  working : d'.working = d.working
  directory : ∀ place, d.node? place = some .directory → d'.node? place = some .directory

theorem KeepsDirectories.refl (d : Disk) : KeepsDirectories d d := ⟨rfl, fun _ h => h⟩

theorem KeepsDirectories.trans {d d' d'' : Disk} (h : KeepsDirectories d d')
    (h' : KeepsDirectories d' d'') : KeepsDirectories d d'' :=
  ⟨h'.working.trans h.working, fun place hplace => h'.directory place (h.directory place hplace)⟩

/-- What is no directory is not the root. -/
theorem ne_root {d : Disk} {place : Place} (h : d.node? place ≠ some .directory) : place ≠ [] := by
  rintro rfl
  exact h (node?_root d)

/-- Putting something where no directory is keeps the directories. -/
theorem keepsDirectories_set {d : Disk} {place : Place} (node : Node)
    (h : d.node? place ≠ some .directory) : KeepsDirectories d (d.set place node) := by
  refine ⟨rfl, fun other hother => ?_⟩
  rw [node?_set d (ne_root h), if_neg]
  · exact hother
  · rintro rfl
    exact h hother

/-- How a path is taken apart depends on nothing but the working directory. -/
theorem route_of_working {d d' : Disk} (h : d'.working = d.working) (path : String) :
    d'.route path = d.route path := by
  unfold route
  rw [h]

/-- Where directories are kept, a walk through them goes the same way. -/
theorem enter_mono {d d' : Disk} (h : KeepsDirectories d d') (names : List String) :
    ∀ {here there : Place}, d.enter here names = .ok there → d'.enter here names = .ok there := by
  induction names with
  | nil => exact fun henter => henter
  | cons name rest ih =>
    intro here there henter
    rw [enter] at henter ⊢
    split at henter
    · cases henter
    · next hlength =>
      rw [if_neg hlength]
      split at henter
      · cases henter
      · next hnode =>
        rw [h.directory _ hnode]
        exact ih henter
      · cases henter

/-- Where directories are kept, a path leads to the same place. -/
theorem locate_mono {d d' : Disk} (h : KeepsDirectories d d') {path : String} {target : Target}
    (hlocate : d.locate path = .ok target) : d'.locate path = .ok target := by
  unfold locate at hlocate ⊢
  rw [route_of_working h.working]
  cases hroute : d.route path with
  | error e =>
    rw [hroute] at hlocate
    cases hlocate
  | ok r =>
    rw [hroute] at hlocate
    simp only [bind, Except.bind] at hlocate ⊢
    -- only the names before the last are walked through
    cases hlast : r.names.getLast? with
    | none =>
      rw [hlast] at hlocate
      exact hlocate
    | some name =>
      rw [hlast] at hlocate
      simp only at hlocate ⊢
      cases henter : d.enter r.start r.names.dropLast with
      | error e =>
        rw [henter] at hlocate
        cases hlocate
      | ok here =>
        rw [henter] at hlocate
        rw [enter_mono h _ henter]
        exact hlocate

/-! ## Making directories

Making the directories of a path walks along it and puts one where nothing is. So what it leaves can be
walked through, and what can be walked through it leaves alone. -/

/-- After directories have been made from a place on, they can be walked through. Induction on the names
that are left. -/
theorem enter_of_createDirsFrom (names : List String) :
    ∀ {d d' : Disk} {begun : Bool} {here : Place}, d.createDirsFrom begun here names = .ok d' →
      KeepsDirectories d d' ∧ ∃ there, d'.enter here names = .ok there := by
  induction names with
  | nil =>
    intro d d' begun here h
    cases h
    exact ⟨.refl _, here, rfl⟩
  | cons name rest ih =>
    intro d d' begun here h
    rw [createDirsFrom] at h
    split at h
    · cases h
    · next hlength =>
      -- made or found, the next place is a directory of the disk that goes on
      have hstep : ∀ {d₁ : Disk} {begun : Bool}, KeepsDirectories d d₁ →
          d₁.node? (child here name) = some .directory →
          d₁.createDirsFrom begun (child here name) rest = .ok d' →
          KeepsDirectories d d' ∧ ∃ there, d'.enter here (name :: rest) = .ok there := by
        intro d₁ begun hkeeps hnode hmake
        obtain ⟨hkeeps', henter⟩ := ih hmake
        rw [enter, if_neg hlength, hkeeps'.directory _ hnode]
        exact ⟨hkeeps.trans hkeeps', henter⟩
      split at h
      · next hnone =>
        have hfree : d.node? (child here name) ≠ some .directory := by
          rw [hnone]
          simp
        refine hstep (keepsDirectories_set .directory hfree) ?_ h
        rw [node?_set d (ne_root hfree), if_pos rfl]
      · next hnode => exact hstep (.refl d) hnode h
      · cases h

/-- Directories that can be walked through are not made again. -/
theorem createDirsFrom_of_enter {d : Disk} {begun : Bool} (names : List String) :
    ∀ {here there : Place}, d.enter here names = .ok there →
      d.createDirsFrom begun here names = .ok d := by
  induction names with
  | nil => exact fun _ => rfl
  | cons name rest ih =>
    intro here there h
    rw [enter] at h
    rw [createDirsFrom]
    split at h
    · cases h
    · next hlength =>
      rw [if_neg hlength]
      split at h
      · cases h
      · exact ih h
      · cases h

theorem mapError_eq_ok {ε ε' α : Type} {result : Except ε α} {f : ε → ε'} {a : α} :
    result.mapError f = .ok a ↔ result = .ok a := by
  cases result <;> simp [Except.mapError]

/-! ## Paths

A path is taken apart once, into where it starts and the names on it. Everything after that is a walk.
-/

/-- Where a path starts. -/
def origin (d : Disk) (path : String) : Place := if path.startsWith "/" then [] else d.working

/-- What stands between the separators of a path. -/
def partsOf (path : String) : List String := (path.toList.splitOn '/').map String.ofList

/-- The names in a path. -/
def namesOf (path : String) : List String :=
  (partsOf path).filter fun name => name ≠ "" ∧ name ≠ "."

/-- What a path that can be taken apart is taken apart into. -/
theorem route_eq_ok {d : Disk} {path : String} {r : Route} (h : d.route path = .ok r) :
    r = ⟨origin d path, namesOf path,
      (partsOf path).getLast? = some "" ∨ (partsOf path).getLast? = some "."⟩ := by
  unfold route at h
  split at h
  · cases h
  · split at h
    · cases h
    · split at h
      · cases h
      · cases h
        rfl

theorem namesOf_empty : namesOf "" = [] := by decide

/-- **Making the directories of a path** is the walk along its names. The empty path cannot be taken apart
and has no names, so that its walk ends where it starts. -/
theorem createDirs_eq_ok {d d' : Disk} {path : String} :
    d.createDirs path = .ok d' ↔
      (path = "" ∨ ∃ r, d.route path = .ok r) ∧
        d.createDirsFrom false (origin d path) (namesOf path) = .ok d' := by
  rw [createDirs, mapError_eq_ok, makeDirs]
  by_cases hempty : path = ""
  · subst hempty
    rw [if_pos (by decide), namesOf_empty, createDirsFrom]
    exact (and_iff_right (.inl rfl)).symm
  · rw [if_neg (by rwa [String.isEmpty_iff]), or_iff_right hempty]
    cases hroute : d.route path with
    | error e =>
      constructor
      · intro h
        cases h
      · rintro ⟨⟨r, h⟩, -⟩
        cases h
    | ok r =>
      have hr := route_eq_ok hroute
      subst hr
      exact (and_iff_right ⟨_, rfl⟩).symm

/-- `Made d path here`: the directories of a path are there, and lead to a place. -/
def Made (d : Disk) (path : String) (here : Place) : Prop :=
  d.enter (origin d path) (namesOf path) = .ok here

/-- A directory that was made stays where directories are kept. -/
theorem Made.mono {d d' : Disk} {path : String} {here : Place} (h : Made d path here)
    (hkeeps : KeepsDirectories d d') : Made d' path here := by
  unfold Made origin at h ⊢
  rw [hkeeps.working]
  exact enter_mono hkeeps _ h

/-- **A directory that was made is there.** -/
theorem made_of_createDirs {d d' : Disk} {path : String} (h : d.createDirs path = .ok d') :
    KeepsDirectories d d' ∧ ∃ here, Made d' path here := by
  obtain ⟨-, hwalk⟩ := createDirs_eq_ok.mp h
  obtain ⟨hkeeps, there, henter⟩ := enter_of_createDirsFrom _ hwalk
  refine ⟨hkeeps, there, ?_⟩
  unfold Made origin
  rw [hkeeps.working]
  exact henter

/-- Making a directory once more changes nothing, whatever happened to other things meanwhile. -/
theorem createDirs_again {d d₁ d₂ : Disk} {path : String} (h : d.createDirs path = .ok d₁)
    (hkeeps : KeepsDirectories d₁ d₂) : d₂.createDirs path = .ok d₂ := by
  obtain ⟨hkeeps₁, here, hmade⟩ := made_of_createDirs h
  have hmade₂ := hmade.mono hkeeps
  -- a path is taken apart in the same way on both disks, so the walk is the same
  have hroute := route_of_working (hkeeps.working.trans hkeeps₁.working) path
  refine createDirs_eq_ok.mpr ⟨?_, createDirsFrom_of_enter _ hmade₂⟩
  rw [hroute]
  exact (createDirs_eq_ok.mp h).1

/-! ## Files in a directory

The path of a file is joined from a directory and a plain name, as text. The name has no separator in
it, so taking the path apart again gives the names of the directory and then the name. -/

/-- A name of a file: no separator in it, and none of the names with a meaning of their own. -/
structure Plain (name : String) : Prop where
  slash : '/' ∉ name.toList
  ne_empty : name ≠ ""
  ne_dot : name ≠ "."
  ne_dots : name ≠ ".."

theorem Plain.not_startsWith {name : String} (h : Plain name) : name.startsWith "/" = false := by
  rw [String.startsWith_string_eq_false_iff]
  intro hbefore
  have hmem : '/' ∈ "/".toList := by decide
  exact h.slash (hbefore.subset hmem)

/-- A plain name is a single part. -/
theorem partsOf_plain {name : String} (h : Plain name) : partsOf name = [name] := by
  rw [partsOf, List.splitOn_eq_singleton h.slash, List.map_singleton, String.ofList_toList]

/-- A text ends with another one exactly if its characters do. -/
theorem endsWith_iff (text suffix : String) :
    text.endsWith suffix ↔ suffix.toList <:+ text.toList := by
  show text.toSlice.endsWith suffix = true ↔ _
  rw [String.Slice.endsWith_string_iff, String.copy_toSlice]

/-- A path with a separator in it: the parts before it and the parts after it. -/
theorem partsOf_append_slash (front : List Char) (name : String) (h : Plain name) :
    partsOf (String.ofList (front ++ '/' :: name.toList)) =
      (front.splitOn '/').map String.ofList ++ [name] := by
  rw [partsOf, String.toList_ofList, List.splitOn_append_cons_self, List.map_append,
    List.splitOn_eq_singleton h.slash, List.map_singleton, String.ofList_toList]

/-- **A file below a directory** starts where the directory starts, and its name is the last part. -/
theorem join_cases (dir : String) {name : String} (h : Plain name) :
    (∀ d : Disk, origin d (Path.join dir name) = origin d dir) ∧
      ∃ front, partsOf (Path.join dir name) = front ++ [name] ∧
        (front.filter fun name => name ≠ "" ∧ name ≠ ".") = namesOf dir := by
  -- what is appended to a path that is not empty does not change where it starts
  have hstart : ∀ chars : List Char, dir ≠ "" → ∀ d : Disk,
      origin d (String.ofList (dir.toList ++ chars)) = origin d dir := by
    intro chars hne d
    have hiff : (String.ofList (dir.toList ++ chars)).startsWith "/" = dir.startsWith "/" := by
      have hslash : "/".toList = ['/'] := by decide
      rw [Bool.eq_iff_iff, String.startsWith_string_iff, String.startsWith_string_iff, hslash,
        String.toList_ofList]
      cases hchars : dir.toList with
      | nil => exact absurd (String.toList_eq_nil_iff.mp hchars) hne
      | cons c cs => simp
    rw [origin, origin, hiff]
  unfold Path.join
  rw [if_neg (by rw [h.not_startsWith]; decide)]
  by_cases hempty : dir = ""
  · subst hempty
    rw [if_pos (.inl (by decide)), String.empty_append]
    refine ⟨fun d => ?_, [], partsOf_plain h, by decide⟩
    have hdir : "".startsWith "/" = false := by decide
    rw [origin, origin, h.not_startsWith, hdir]
  · by_cases hend : dir.endsWith "/"
    · rw [if_pos (.inr hend)]
      rw [endsWith_iff] at hend
      obtain ⟨front, hfront⟩ := hend
      have hslash : "/".toList = ['/'] := by decide
      rw [hslash] at hfront
      have hdir : dir = String.ofList (front ++ ['/']) := by rw [hfront, String.ofList_toList]
      have hjoin : dir ++ name = String.ofList (dir.toList ++ name.toList) := by
        rw [← String.toList_append, String.ofList_toList]
      refine ⟨fun d => by rw [hjoin]; exact hstart _ hempty d,
        (front.splitOn '/').map String.ofList, ?_, ?_⟩
      · rw [hjoin, ← hfront, List.append_assoc]
        exact partsOf_append_slash front name h
      · rw [namesOf, partsOf, ← hfront, List.splitOn_append_cons_self, List.map_append,
          List.filter_append]
        simp
    · rw [if_neg (by rw [String.isEmpty_iff]; exact fun h => h.elim hempty hend)]
      have hjoin : dir ++ "/" ++ name = String.ofList (dir.toList ++ '/' :: name.toList) := by
        rw [← String.ofList_toList (s := dir ++ "/" ++ name), String.toList_append,
          String.toList_append, show "/".toList = ['/'] from by decide, List.append_assoc]
        rfl
      refine ⟨fun d => by rw [hjoin]; exact hstart _ hempty d, partsOf dir, ?_, rfl⟩
      rw [hjoin]
      exact partsOf_append_slash dir.toList name h

/-- The names of a joined path are those of the directory and the plain name behind them. -/
theorem namesOf_join (dir : String) {name : String} (h : Plain name) :
    namesOf (Path.join dir name) = namesOf dir ++ [name] := by
  obtain ⟨-, front, hparts, hfront⟩ := join_cases dir h
  have hkept : (name ≠ "" ∧ name ≠ ".") := ⟨h.ne_empty, h.ne_dot⟩
  rw [namesOf, hparts, List.filter_append, hfront, List.filter_cons_of_pos (by simpa using hkept),
    List.filter_nil]

/-- Where the path of a file below a directory can be taken apart, the file has its own place. -/
theorem locate_join {d : Disk} {dir name : String} {here : Place} (hmade : Made d dir here)
    (h : Plain name) {r : Route} (hroute : d.route (Path.join dir name) = .ok r) :
    d.locate (Path.join dir name) =
      if maxName < name.utf8ByteSize then .error .nameTooLong else .ok ⟨here ++ [name], false⟩ := by
  obtain ⟨horigin, front, hparts, -⟩ := join_cases dir h
  have hkept : (name ≠ "" ∧ name ≠ ".") := ⟨h.ne_empty, h.ne_dot⟩
  have hwants : decide ((partsOf (Path.join dir name)).getLast? = some "" ∨
      (partsOf (Path.join dir name)).getLast? = some ".") = false := by
    rw [hparts, List.getLast?_concat]
    simpa using hkept
  have hlast : (namesOf dir ++ [name]).getLast? = some name := List.getLast?_concat
  have hfirst : (namesOf dir ++ [name]).dropLast = namesOf dir := List.dropLast_concat
  have henter : d.enter (origin d dir) (namesOf dir) = .ok here := hmade
  rw [locate, hroute, route_eq_ok hroute, namesOf_join dir h, hwants, horigin]
  simp only [bind, Except.bind, hlast, hfirst, henter]
  rw [child, if_neg h.ne_dots]

/-- A file below a directory that is there, and not found, has a free place. -/
theorem locate_of_notFound {d : Disk} {dir name : String} {here : Place} (hmade : Made d dir here)
    (h : Plain name) (hread : d.read (Path.join dir name) = some (.error .notFound)) :
    d.locate (Path.join dir name) = .ok ⟨here ++ [name], false⟩ ∧
      d.node? (here ++ [name]) = none := by
  have hne : (Path.join dir name).isEmpty = false := by
    obtain ⟨-, front, hparts, -⟩ := join_cases dir h
    rw [Bool.eq_false_iff, Ne, String.isEmpty_iff]
    intro heq
    have hempty : partsOf "" = [""] := by decide
    rw [heq, hempty] at hparts
    have hlast := congrArg List.getLast? hparts
    rw [List.getLast?_concat] at hlast
    exact h.ne_empty (Option.some.inj hlast).symm
  unfold read at hread
  cases hroute : d.route (Path.join dir name) with
  | error e =>
    -- a path that is not empty is refused for other reasons than that nothing is there
    have hlocate : d.locate (Path.join dir name) = .error e := by
      rw [locate, hroute]
      rfl
    rw [hlocate] at hread
    cases hread
    unfold route at hroute
    split at hroute
    · cases hroute
    · rw [if_neg (by rw [hne]; decide)] at hroute
      split at hroute <;> cases hroute
  | ok r =>
    have hlocate := locate_join hmade h hroute
    rw [hlocate] at hread ⊢
    -- a name that is too long is refused for that
    by_cases hlong : maxName < name.utf8ByteSize
    · rw [if_pos hlong] at hread
      cases hread
    · rw [if_neg hlong] at hread ⊢
      refine ⟨rfl, ?_⟩
      simp only at hread
      cases hnode : d.node? (here ++ [name]) with
      | none => rfl
      | some node =>
        rw [hnode] at hread
        cases node <;> cases hread

/-! ## Writing, renaming and reading -/

theorem write_new {d : Disk} {path : String} {place : Place}
    (hlocate : d.locate path = .ok ⟨place, false⟩) (hnone : d.node? place = none) (content : Bytes) :
    d.write path content = some (.ok (d.set place (.file content))) := by
  rw [write, hlocate]
  simp only [hnone]
  rfl

/-- Renaming a file to a place where nothing is moves it. -/
theorem rename_new {d : Disk} {source target : String} {place place' : Place} {content : Bytes}
    (hsource : d.locate source = .ok ⟨place, false⟩) (htarget : d.locate target = .ok ⟨place', false⟩)
    (hfile : d.node? place = some (.file content)) (hnone : d.node? place' = none) :
    d.rename source target = .ok ((d.erase place).set place' (.file content)) := by
  rw [rename, hsource, htarget]
  simp only [bind, Except.bind, hfile, hnone]
  rfl

theorem read_file {d : Disk} {path : String} {place : Place} {content : Bytes}
    (hlocate : d.locate path = .ok ⟨place, false⟩) (hfile : d.node? place = some (.file content)) :
    d.read path = some (.ok content) := by
  rw [read, hlocate]
  simp only [hfile]
  rfl

/-- The disk after a file has been written at one place and moved to another. -/
def moved (d : Disk) (staging place : Place) (content : Bytes) : Disk :=
  ((d.set staging (.file content)).erase staging).set place (.file content)

/-- A file that was written and moved is at its new place, and nothing else has changed. -/
theorem node?_moved {d : Disk} {staging place : Place} (content : Bytes)
    (hstaging : d.node? staging = none) (hplace : d.node? place = none) (other : Place) :
    (d.moved staging place content).node? other =
      if other = place then some (.file content) else d.node? other := by
  have hne : ∀ p, d.node? p = none → p ≠ [] := fun p hp => ne_root (by rw [hp]; simp)
  rw [moved, node?_set _ (hne place hplace), node?_erase _ (hne staging hstaging),
    node?_set _ (hne staging hstaging)]
  by_cases hother : other = place
  · rw [if_pos hother, if_pos hother]
  · rw [if_neg hother, if_neg hother]
    by_cases hstage : other = staging
    · rw [if_pos hstage, hstage, hstaging]
    · rw [if_neg hstage, if_neg hstage]

/-- A file that was written and moved leaves the directories as they are. -/
theorem keepsDirectories_moved {d : Disk} {staging place : Place} (content : Bytes)
    (hstaging : d.node? staging = none) (hplace : d.node? place = none) :
    KeepsDirectories d (d.moved staging place content) := by
  refine ⟨rfl, fun other hother => ?_⟩
  rw [node?_moved content hstaging hplace, if_neg]
  · exact hother
  · rintro rfl
    rw [hplace] at hother
    cases hother

end Stowage.Disk
