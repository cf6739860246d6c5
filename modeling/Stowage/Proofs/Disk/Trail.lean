import Mathlib.Data.String.Basic
import Stowage.Proofs.Disk
/-!
# Stowage — directories that can be made

A walk along a path comes by a trail of places. The directories of a path can be made exactly if
nothing else is on its trail (`Passable`, `createDirs_iff`), and nothing but the trail changes
(`node?_createDirs`). A file below such a directory is where it belongs once the whole trail is there
(`locate_made`), and until then nothing is found of it (`locate_unmade`).
-/

namespace Stowage.Disk

/-! ## Trails

Trail and destination of a walk depend on its names only. What is on the disk decides whether the walk
can be made. -/

/-- The places that a walk comes by. -/
def trail : Place → List String → List Place
  | _, [] => []
  | here, name :: rest => child here name :: trail (child here name) rest

def walk (here : Place) (names : List String) : Place := names.foldl child here

/-- A longer walk comes by the places of the first part and then by those of the second. -/
theorem trail_append (names more : List String) :
    ∀ here, trail here (names ++ more) = trail here names ++ trail (walk here names) more := by
  induction names with
  | nil => exact fun _ => rfl
  | cons name rest ih =>
    intro here
    rw [List.cons_append, trail, trail, ih, List.cons_append]
    rfl

theorem walk_append (here : Place) (names more : List String) :
    walk here (names ++ more) = walk (walk here names) more :=
  List.foldl_append ..

/-- A walk that does not climb gets deeper with each name. -/
theorem length_le_of_mem_trail {names : List String} (hdots : ".." ∉ names) :
    ∀ {here place : Place}, place ∈ trail here names → place.length ≤ (walk here names).length := by
  -- the walk itself never gets shorter
  have hwalk : ∀ {names : List String}, ".." ∉ names → ∀ here : Place,
      here.length ≤ (walk here names).length := by
    intro names hdots
    induction names with
    | nil => exact fun here => Nat.le_refl _
    | cons name rest ih =>
      intro here
      obtain ⟨hname, hrest⟩ := not_or.mp (mt List.mem_cons.mpr hdots)
      have hchild : here.length ≤ (child here name).length := by
        rw [child, if_neg (Ne.symm hname), List.length_append]
        exact Nat.le_add_right _ _
      exact Nat.le_trans hchild (ih hrest _)
  induction names with
  | nil => exact fun {_ _} h => absurd h List.not_mem_nil
  | cons name rest ih =>
    intro here place h
    obtain ⟨-, hrest⟩ := not_or.mp (mt List.mem_cons.mpr hdots)
    rcases List.mem_cons.mp h with rfl | h
    · exact hwalk hrest _
    · exact ih hrest h

/-- Nothing is in the way of a walk: no name is too long, and whatever is on the trail is a directory. -/
structure Clear (d : Disk) (here : Place) (names : List String) : Prop where
  short : ∀ name ∈ names, ¬ maxName < name.utf8ByteSize
  free : ∀ place ∈ trail here names, d.node? place = none ∨ d.node? place = some .directory

/-- All of the trail is there. -/
def Walkable (d : Disk) (here : Place) (names : List String) : Prop :=
  ∀ place ∈ trail here names, d.node? place = some .directory

section

variable {d d' : Disk} {here : Place} {name : String} {rest names : List String}

theorem Clear.tail (h : Clear d here (name :: rest)) : Clear d (child here name) rest :=
  ⟨fun other hother => h.short other (List.mem_cons_of_mem _ hother),
    fun place hplace => h.free place (List.mem_cons_of_mem _ hplace)⟩

/-- All of a trail is there if its first place is and the rest of it is. -/
theorem walkable_cons :
    Walkable d here (name :: rest) ↔
      d.node? (child here name) = some .directory ∧ Walkable d (child here name) rest :=
  List.forall_mem_cons

/-- A walk whose trail is there gets to its end. -/
theorem enter_walkable (hclear : Clear d here names) (h : Walkable d here names) :
    d.enter here names = .ok (walk here names) := by
  induction names generalizing here with
  | nil => rfl
  | cons name rest ih =>
    obtain ⟨hnode, hrest⟩ := walkable_cons.mp h
    rw [enter, if_neg (hclear.short name (List.mem_cons_self ..)), hnode]
    exact ih hclear.tail hrest

/-- A walk that gets anywhere gets to its end. -/
theorem enter_eq_walk (names : List String) :
    ∀ {here there : Place}, d.enter here names = .ok there → there = walk here names := by
  induction names with
  | nil =>
    intro here there h
    cases h
    rfl
  | cons name rest ih =>
    intro here there h
    rw [enter] at h
    split at h
    · cases h
    · split at h
      · cases h
      · exact ih h
      · cases h

/-- A walk on which nothing is in the way fails where something is missing. -/
theorem enter_not_walkable (hclear : Clear d here names) (h : ¬ Walkable d here names) :
    d.enter here names = .error .notFound := by
  induction names generalizing here with
  | nil => exact absurd (fun _ hplace => absurd hplace List.not_mem_nil) h
  | cons name rest ih =>
    rw [enter, if_neg (hclear.short name (List.mem_cons_self ..))]
    rcases hclear.free (child here name) (List.mem_cons_self ..) with hnone | hnode
    · rw [hnone]
    · rw [hnode]
      exact ih hclear.tail fun hrest => h (walkable_cons.mpr ⟨hnode, hrest⟩)

/-! ## Making directories

On a clear trail some places are directories and the others are empty. Making directories fills these,
which disturbs nothing further along, since a directory is never in the way. -/

theorem child_ne_root (h : d.node? (child here name) = none) : child here name ≠ [] :=
  ne_root (by rw [h]; simp)

/-- A directory that was put on a trail does not get in the way of it. -/
theorem Clear.set (h : Clear d here names) {place : Place} (hplace : d.node? place = none) :
    Clear (d.set place .directory) here names := by
  refine ⟨h.short, fun other hother => ?_⟩
  rw [node?_set d (ne_root (by rw [hplace]; simp))]
  split
  · exact .inr rfl
  · exact h.free other hother

/-- Where nothing is in the way, directories can be made. -/
theorem exists_createDirsFrom (begun : Bool) (h : Clear d here names) :
    ∃ d', d.createDirsFrom begun here names = .ok d' := by
  induction names generalizing d begun here with
  | nil => exact ⟨d, rfl⟩
  | cons name rest ih =>
    rw [createDirsFrom, if_neg (h.short name (List.mem_cons_self ..))]
    rcases h.free (child here name) (List.mem_cons_self ..) with hnone | hnode
    · rw [hnone]
      exact ih true (h.tail.set hnone)
    · rw [hnode]
      exact ih begun h.tail

/-- **What making directories changes.** Nothing was in the way, and the trail is there now. Induction on
the names that are left. -/
theorem createDirsFrom_trail {begun : Bool} (h : d.createDirsFrom begun here names = .ok d') :
    Clear d here names ∧ d'.working = d.working ∧
      ∀ place, d'.node? place =
        if place ∈ trail here names then some .directory else d.node? place := by
  induction names generalizing d begun here with
  | nil =>
    cases h
    refine ⟨⟨fun _ hname => absurd hname List.not_mem_nil,
      fun _ hplace => absurd hplace List.not_mem_nil⟩, rfl, fun place => ?_⟩
    rw [if_neg (show ¬ place ∈ trail here [] from List.not_mem_nil)]
  | cons name rest ih =>
    rw [createDirsFrom] at h
    split at h
    · cases h
    · next hshort =>
      split at h
      -- nothing was there, and the rest of the walk begins with the new directory in place
      · next hnone =>
        obtain ⟨⟨hrest, hfree⟩, hworking, hnode⟩ := ih h
        have hset := node?_set d (child_ne_root hnone) .directory
        refine ⟨⟨List.forall_mem_cons.mpr ⟨hshort, hrest⟩,
          List.forall_mem_cons.mpr ⟨.inl hnone, fun place hplace => ?_⟩⟩, hworking, fun place => ?_⟩
        · by_cases heq : place = child here name
          · exact .inl (heq ▸ hnone)
          · have hplace := hfree place hplace
            rwa [hset, if_neg heq] at hplace
        · rw [hnode, hset]
          simp only [trail, List.mem_cons]
          by_cases heq : place = child here name
          · simp [heq]
          · simp [heq]
      · next hdirectory =>
        obtain ⟨⟨hrest, hfree⟩, hworking, hnode⟩ := ih h
        refine ⟨⟨List.forall_mem_cons.mpr ⟨hshort, hrest⟩,
          List.forall_mem_cons.mpr ⟨.inr hdirectory, hfree⟩⟩, hworking, fun place => ?_⟩
        rw [hnode]
        simp only [trail, List.mem_cons]
        by_cases heq : place = child here name
        · simp [heq, hdirectory]
        · simp [heq]
      · cases h

end

/-! ## Paths

What was said of walks is now said of paths. An empty path names the place where it starts, and is
accepted here although it cannot be taken apart. -/

/-- The places that lead to the directory of a path. -/
def trailOf (d : Disk) (path : String) : List Place := trail (origin d path) (namesOf path)

/-- The place of the directory of a path. -/
def home (d : Disk) (path : String) : Place := walk (origin d path) (namesOf path)

/-- A path that is empty or can be taken apart. -/
def Routed (d : Disk) (path : String) : Prop := path = "" ∨ ∃ r, d.route path = .ok r

/-- The directory of a path is there or can be made. -/
structure Passable (d : Disk) (path : String) : Prop where
  routed : Routed d path
  clear : Clear d (origin d path) (namesOf path)

/-- The directory of a path is there, with all that leads to it. -/
def Present (d : Disk) (path : String) : Prop := Walkable d (origin d path) (namesOf path)

section

variable {d d' : Disk} {path : String}

theorem origin_of_working (h : d'.working = d.working) (path : String) :
    origin d' path = origin d path := by
  unfold origin
  rw [h]

theorem trailOf_of_working (h : d'.working = d.working) (path : String) :
    trailOf d' path = trailOf d path := by
  unfold trailOf
  rw [origin_of_working h]

theorem home_of_working (h : d'.working = d.working) (path : String) :
    home d' path = home d path := by
  unfold home
  rw [origin_of_working h]

/-- A path stays passable as long as nothing but directories comes to its trail. -/
theorem Passable.of_working (h : Passable d path) (hworking : d'.working = d.working)
    (hfree : ∀ place ∈ trailOf d path, d'.node? place = none ∨ d'.node? place = some .directory) :
    Passable d' path := by
  unfold trailOf at hfree
  refine ⟨?_, ?_, ?_⟩
  · rw [Routed, route_of_working hworking]
    exact h.routed
  · exact h.clear.short
  · rw [origin_of_working hworking]
    exact hfree

/-- **Making a directory** succeeds exactly if nothing is in the way. -/
theorem createDirs_iff : (∃ d', d.createDirs path = .ok d') ↔ Passable d path := by
  constructor
  · rintro ⟨d', h⟩
    obtain ⟨hrouted, hwalk⟩ := createDirs_eq_ok.mp h
    exact ⟨hrouted, (createDirsFrom_trail hwalk).1⟩
  -- with a path that is taken apart, only the walk can fail
  · rintro ⟨hrouted, hclear⟩
    obtain ⟨d', hwalk⟩ := exists_createDirsFrom false hclear
    exact ⟨d', createDirs_eq_ok.mpr ⟨hrouted, hwalk⟩⟩

/-- **What making a directory changes**: the places that lead to it are directories now. -/
theorem node?_createDirs (h : d.createDirs path = .ok d') :
    d'.working = d.working ∧ ∀ place, d'.node? place =
      if place ∈ trailOf d path then some .directory else d.node? place := by
  obtain ⟨-, hwalk⟩ := createDirs_eq_ok.mp h
  exact (createDirsFrom_trail hwalk).2

/-- A path whose directories were made is passable. -/
theorem passable_createDirs (h : d.createDirs path = .ok d') : Passable d' path := by
  obtain ⟨hworking, hnode⟩ := node?_createDirs h
  refine (createDirs_iff.mp ⟨d', h⟩).of_working hworking fun place hplace => .inr ?_
  rw [hnode, if_pos hplace]

/-- A path whose directories were made is present. -/
theorem present_createDirs (h : d.createDirs path = .ok d') : Present d' path := by
  obtain ⟨hworking, hnode⟩ := node?_createDirs h
  intro place hplace
  rw [origin_of_working hworking] at hplace
  rw [hnode]
  exact if_pos hplace

/-- Which places must be directories does not depend on what is on the disk. -/
theorem present_iff (h : d'.working = d.working) :
    Present d' path ↔ ∀ place ∈ trailOf d path, d'.node? place = some .directory := by
  rw [Present, origin_of_working h]
  rfl

/-- A passable path that is present leads to its place. -/
theorem made_of_present (hpass : Passable d path) (h : Present d path) : Made d path (home d path) :=
  enter_walkable hpass.clear h

end

/-! ## Files below a directory

A path that does not climb never comes back to its own last directory, so a file there is on no trail
that leads to it. Two more things can keep a file from its place: a path that cannot be taken apart, and
a name that is too long. -/

/-- The place of a file is below that of its directory. -/
theorem home_join (d : Disk) (dir : String) {name : String} (h : Plain name) :
    home d (Path.join dir name) = home d dir ++ [name] := by
  rw [home, (join_cases dir h).1, namesOf_join dir h, walk_append]
  exact if_neg h.ne_dots

/-- A walk to a file comes to its directory, and then to the file. -/
theorem trailOf_join (d : Disk) (dir : String) {name : String} (h : Plain name) :
    trailOf d (Path.join dir name) = trailOf d dir ++ [home d dir ++ [name]] := by
  rw [trailOf, (join_cases dir h).1, namesOf_join dir h, trail_append]
  show _ ++ [child (home d dir) name] = _
  rw [child, if_neg h.ne_dots]
  rfl

/-- Where a path does not climb, nothing in its directory is on the way to it. -/
theorem not_mem_trailOf {d : Disk} {dir : String} (hdots : ".." ∉ namesOf dir) (name : String) :
    home d dir ++ [name] ∉ trailOf d dir := by
  intro hmem
  have hlength := length_le_of_mem_trail hdots hmem
  rw [List.length_append] at hlength
  exact absurd hlength (Nat.not_succ_le_self _)

/-- A path below a directory can be taken apart, and its last name is not too long. -/
structure Named (d : Disk) (dir name : String) : Prop where
  routed : ∃ r, d.route (Path.join dir name) = .ok r
  short : ¬ maxName < name.utf8ByteSize

section

variable {d d' : Disk} {dir name : String}

theorem Named.of_working (h : Named d dir name) (hworking : d'.working = d.working) :
    Named d' dir name := by
  refine ⟨?_, h.short⟩
  rw [route_of_working hworking]
  exact h.routed

/-- A character takes four bytes at most. -/
theorem utf8ByteSize_le (text : String) : text.utf8ByteSize ≤ 4 * text.toList.length := by
  rw [← String.ofList_toList (s := text), String.utf8ByteSize_ofList, String.toList_ofList]
  induction text.toList with
  | nil => exact Nat.le_refl _
  | cons c rest ih =>
    have hc := Char.utf8Size_le_four c
    rw [String.utf8Len_cons, List.length_cons]
    omega

/-- A joined path is the directory and the name, with or without a separator between them. -/
theorem join_eq (dir : String) {name : String} (h : Plain name) :
    ∃ sep, (sep = "" ∨ sep = "/") ∧ Path.join dir name = dir ++ sep ++ name := by
  unfold Path.join
  rw [if_neg (by rw [h.not_startsWith]; decide)]
  split
  · exact ⟨"", .inl rfl, by rw [String.append_empty]⟩
  · exact ⟨"/", .inr rfl, rfl⟩

/-- A path that is short enough, without a zero byte, can be taken apart. -/
theorem named_of_short (hplain : Plain name) (hdir : '\x00' ∉ dir.toList)
    (hname : '\x00' ∉ name.toList) (hpath : dir.utf8ByteSize + 1 + name.utf8ByteSize ≤ maxPath)
    (hshort : name.utf8ByteSize ≤ maxName) : Named d dir name := by
  refine ⟨?_, Nat.not_lt.mpr hshort⟩
  obtain ⟨sep, hsep, hjoin⟩ := join_eq dir hplain
  have hsize : sep.utf8ByteSize ≤ 1 ∧ '\x00' ∉ sep.toList := by
    rcases hsep with rfl | rfl <;> decide
  -- the three things that keep a path from being taken apart: a zero byte, no byte, too many bytes
  have hzero : (Path.join dir name).toList.any (· = '\x00') = false := by
    rw [List.any_eq_false, hjoin, String.toList_append, String.toList_append]
    intro c hc heq
    rw [decide_eq_true_eq] at heq
    subst heq
    simp only [List.mem_append] at hc
    exact hc.elim (fun hc => hc.elim hdir hsize.2) hname
  have hne : (Path.join dir name).isEmpty = false := by
    rw [Bool.eq_false_iff, Ne, String.isEmpty_iff, hjoin]
    intro heq
    rw [String.append_eq_empty_iff] at heq
    exact hplain.ne_empty heq.2
  have hlong : ¬ maxPath < (Path.join dir name).utf8ByteSize := by
    rw [hjoin, String.utf8ByteSize_append, String.utf8ByteSize_append]
    omega
  unfold route
  rw [if_neg (by rw [hzero]; decide), if_neg (by rw [hne]; decide), if_neg hlong]
  exact ⟨_, rfl⟩

/-- A file that can be found has a path that can be taken apart and a name that is not too long. -/
theorem Named.of_locate {here : Place} {target : Target} (hmade : Made d dir here)
    (hplain : Plain name) (h : d.locate (Path.join dir name) = .ok target) : Named d dir name := by
  cases hroute : d.route (Path.join dir name) with
  | error e =>
    rw [locate, hroute] at h
    cases h
  | ok r =>
    refine ⟨⟨r, hroute⟩, fun hlong => ?_⟩
    rw [locate_join hmade hplain hroute, if_pos hlong] at h
    cases h

/-- Below a directory that is there, a file is at its own place. -/
theorem locate_made (hpass : Passable d dir) (hplain : Plain name) (hnamed : Named d dir name)
    (h : Present d dir) :
    d.locate (Path.join dir name) = .ok ⟨home d dir ++ [name], false⟩ := by
  obtain ⟨r, hroute⟩ := hnamed.routed
  rw [locate_join (made_of_present hpass h) hplain hroute, if_neg hnamed.short]

/-- Below a directory that is not there yet, a file is not found. -/
theorem locate_unmade (hpass : Passable d dir) (hplain : Plain name) (hnamed : Named d dir name)
    (h : ¬ Present d dir) : d.locate (Path.join dir name) = .error .notFound := by
  obtain ⟨r, hroute⟩ := hnamed.routed
  obtain ⟨horigin, -⟩ := join_cases dir hplain
  have hlast : (namesOf dir ++ [name]).getLast? = some name := List.getLast?_concat
  have hfirst : (namesOf dir ++ [name]).dropLast = namesOf dir := List.dropLast_concat
  rw [locate, hroute, route_eq_ok hroute, namesOf_join dir hplain, horigin]
  simp only [bind, Except.bind, hlast, hfirst, enter_not_walkable hpass.clear h]

/-- A file below a directory is found at its own place, if it is found at all. -/
theorem locate_join_eq_ok {file : Target} (hplain : Plain name)
    (h : d.locate (Path.join dir name) = .ok file) : file = ⟨home d dir ++ [name], false⟩ := by
  cases hroute : d.route (Path.join dir name) with
  | error e =>
    rw [locate, hroute] at h
    cases h
  | ok r =>
    -- the file is found in the directory that the walk leads to, and that is its home
    have hlocate := h
    rw [locate, hroute, route_eq_ok hroute, namesOf_join dir hplain,
      (join_cases dir hplain).1] at h
    simp only [bind, Except.bind, List.getLast?_concat, List.dropLast_concat] at h
    cases henter : d.enter (origin d dir) (namesOf dir) with
    | error e =>
      rw [henter] at h
      cases h
    | ok here =>
      obtain rfl := enter_eq_walk _ henter
      rw [locate_join henter hplain hroute] at hlocate
      split at hlocate
      · cases hlocate
      · cases hlocate
        rfl

/-- Where the same is on a trail, a walk along it goes the same way. -/
theorem enter_congr {names : List String} :
    ∀ {here : Place}, (∀ place ∈ trail here names, d'.node? place = d.node? place) →
      d'.enter here names = d.enter here names := by
  induction names with
  | nil => exact fun _ => rfl
  | cons name rest ih =>
    intro here h
    obtain ⟨hnode, hrest⟩ := List.forall_mem_cons.mp h
    rw [enter, enter, hnode, ih hrest]

/-- What is read below a directory depends on the trail and on the file. -/
theorem read_congr (hplain : Plain name) (hworking : d'.working = d.working)
    (htrail : ∀ place ∈ trailOf d dir, d'.node? place = d.node? place)
    (hfile : d'.node? (home d dir ++ [name]) = d.node? (home d dir ++ [name])) :
    d'.read (Path.join dir name) = d.read (Path.join dir name) := by
  have hlocate : d'.locate (Path.join dir name) = d.locate (Path.join dir name) := by
    rw [locate, locate, route_of_working hworking]
    cases hroute : d.route (Path.join dir name) with
    | error e => rfl
    | ok r =>
      rw [route_eq_ok hroute, namesOf_join dir hplain, (join_cases dir hplain).1]
      simp only [bind, Except.bind, List.getLast?_concat, List.dropLast_concat, enter_congr htrail]
  rw [read, read, hlocate]
  cases hfound : d.locate (Path.join dir name) with
  | error e => rfl
  | ok file =>
    rw [locate_join_eq_ok hplain hfound]
    simp only [hfile]

/-- A file below a directory that is there or can be made is found nowhere, if it is not in the
directory. -/
theorem read_absent (hpass : Passable d dir) (hplain : Plain name) (hnamed : Named d dir name)
    (h : d.node? (home d dir ++ [name]) = none) :
    d.read (Path.join dir name) = some (.error .notFound) := by
  unfold read
  by_cases hpresent : Present d dir
  · rw [locate_made hpass hplain hnamed hpresent]
    simp only [h]
  · rw [locate_unmade hpass hplain hnamed hpresent]

/-- A file that is not there cannot be removed. -/
theorem remove_absent (hpass : Passable d dir) (hplain : Plain name) (hnamed : Named d dir name)
    (h : d.node? (home d dir ++ [name]) = none) :
    d.remove (Path.join dir name) = .error .notFound := by
  unfold remove
  by_cases hpresent : Present d dir
  · rw [locate_made hpass hplain hnamed hpresent]
    simp only [bind, Except.bind, h]
  · rw [locate_unmade hpass hplain hnamed hpresent]
    rfl

theorem remove_file {path : String} {place : Place} {content : Bytes}
    (hlocate : d.locate path = .ok ⟨place, false⟩) (hfile : d.node? place = some (.file content)) :
    d.remove path = .ok (d.erase place) := by
  rw [remove, hlocate]
  simp only [bind, Except.bind, hfile]
  rfl

end

end Stowage.Disk
