import Mathlib.Data.List.Basic
import Stowage.Proofs.Records.Calls
/-!
# Stowage — the record stores below a root, as one map

Any number of stores of any tenants work below one root, call after call (`conduct`). What they hold
can be told from the history of the calls alone (`Held`): a record that was stored for a tenant, and
not deleted since. Tenants do not meet, since their directories are named for them
(`Account.place_inj`), and no record stands in the way of a directory (`Account.apart`). A history can
begin on a disk on which a store finds nothing (`Vacant`), as it does below a bare root.
-/

namespace Stowage.RecordStore

/-! ## Histories

A history lists requests with what was answered, and forgets the disk. What a tenant holds is defined
from it alone. -/

/-- A store of a tenant below a root. -/
structure Account (root : String) where
  tenant : String
  store : RecordStore
  made : ∃ threshold deadline, make root tenant threshold deadline = .ok store

/-- What can be asked of a store. -/
inductive Request where
  | store (value : Json)
  | load (id : String)
  | loadFrom (value : Json)
  | delete (id : String)

/-- What comes of a request. -/
inductive Outcome where
  | stored (result : Except Failure (Option Record))
  | loaded (result : Except Failure Record)
  | deleted (result : Except Failure Unit)

/-- Makes a request. Values are judged by their compact text. -/
def perform (s : RecordStore) : Request → Program Outcome
  | .store value => do
    let result ← s.store value value.print
    pure (.stored result)
  | .load id => do
    let result ← s.load id
    pure (.loaded result)
  | .loadFrom value => do
    let result ← s.loadFrom value
    pure (.loaded result)
  | .delete id => do
    let result ← s.delete id
    pure (.deleted result)

/-- A request by a tenant, with what came of it. -/
structure Entry where
  tenant : String
  request : Request
  outcome : Outcome

/-- Makes requests to stores, one after the other, and keeps the history. -/
def conduct {root : String} : List (Account root × Request) → Program (List Entry)
  | [] => pure []
  | (a, request) :: rest => do
    let outcome ← perform a.store request
    let entries ← conduct rest
    pure (⟨a.tenant, request, outcome⟩ :: entries)

/-- Entry for a value that was stored: the record was given back without it. -/
def Entry.storing (tenant : String) (value : Json) (given : Record) : Entry :=
  ⟨tenant, .store value, .stored (.ok (some given))⟩

/-- Entry for a record that was deleted. -/
def Entry.deleting (tenant id : String) : Entry := ⟨tenant, .delete id, .deleted (.ok ())⟩

/-- `Held history tenant id record`: the record with the id was given to the tenant when its data was
stored, and has not been deleted by the tenant since. -/
def Held (history : List Entry) (tenant id : String) (record : Record) : Prop :=
  ∃ before value given after, history = before ++ Entry.storing tenant value given :: after ∧
    given.id = id ∧ record = { given with data := some value } ∧
    Entry.deleting tenant id ∉ after

section

variable {history : List Entry} {tenant id other : String} {record given : Record} {value : Json}

theorem not_held_nil : ¬ Held [] tenant id record := by
  rintro ⟨before, value, given, after, h, -⟩
  cases before <;> cases h

/-- **One more entry.** -/
theorem held_concat {e : Entry} :
    Held (history ++ [e]) tenant id record ↔
      (∃ value given, e = Entry.storing tenant value given ∧ given.id = id ∧
        record = { given with data := some value }) ∨
      (Held history tenant id record ∧ e ≠ Entry.deleting tenant id) := by
  constructor
  · rintro ⟨before, value, given, after, hsplit, hid, hrecord, hafter⟩
    -- the storing is the new entry, or the new entry comes after it
    rcases List.eq_nil_or_concat after with rfl | ⟨earlier, last, rfl⟩
    · obtain ⟨-, hlast⟩ := List.append_inj' hsplit rfl
      exact .inl ⟨value, given, List.singleton_inj.mp hlast, hid, hrecord⟩
    · rw [List.concat_eq_append] at hsplit hafter
      rw [← List.cons_append, ← List.append_assoc] at hsplit
      obtain ⟨hfirst, hlast⟩ := List.append_inj' hsplit rfl
      cases hlast
      refine .inr ⟨⟨before, value, given, earlier, hfirst, hid, hrecord, fun hmem => ?_⟩, ?_⟩
      · exact hafter (List.mem_append_left _ hmem)
      · rintro rfl
        exact hafter (List.mem_append_right _ (List.mem_singleton_self _))
  · rintro (⟨value, given, rfl, hid, hrecord⟩ |
      ⟨⟨before, value, given, after, rfl, hid, hrecord, hafter⟩, he⟩)
    · exact ⟨history, value, given, [], rfl, hid, hrecord, List.not_mem_nil⟩
    · refine ⟨before, value, given, after ++ [e], by simp, hid, hrecord, fun hmem => ?_⟩
      rcases List.mem_append.mp hmem with hmem | hmem
      · exact hafter hmem
      · exact he (List.mem_singleton.mp hmem).symm

/-- After a record was stored, its tenant holds it, and everything else is held as before. -/
theorem held_storing :
    Held (history ++ [Entry.storing other value given]) tenant id record ↔
      (tenant = other ∧ id = given.id ∧ record = { given with data := some value }) ∨
        Held history tenant id record := by
  rw [held_concat]
  constructor
  · rintro (⟨value', given', heq, hid, hrecord⟩ | ⟨hheld, -⟩)
    · cases heq
      exact .inl ⟨rfl, hid.symm, hrecord⟩
    · exact .inr hheld
  · rintro (⟨rfl, rfl, hrecord⟩ | hheld)
    · exact .inl ⟨value, given, rfl, rfl, hrecord⟩
    · refine .inr ⟨hheld, fun heq => ?_⟩
      cases heq

theorem held_singleton :
    Held [Entry.storing other value given] tenant id record ↔
      tenant = other ∧ id = given.id ∧ record = { given with data := some value } := by
  rw [← List.nil_append [Entry.storing other value given], held_storing,
    or_iff_left not_held_nil]

/-- After a record was deleted, its tenant does not hold it. -/
theorem held_deleting {deleted : String} :
    Held (history ++ [Entry.deleting other deleted]) tenant id record ↔
      Held history tenant id record ∧ ¬ (tenant = other ∧ id = deleted) := by
  rw [held_concat]
  constructor
  · rintro (⟨value', given', heq, -⟩ | ⟨hheld, hne⟩)
    · cases heq
    · refine ⟨hheld, ?_⟩
      rintro ⟨rfl, rfl⟩
      exact hne rfl
  · rintro ⟨hheld, hne⟩
    refine .inr ⟨hheld, fun heq => ?_⟩
    cases heq
    exact hne ⟨rfl, rfl⟩

/-- Entry that neither stored nor deleted anything. -/
def Entry.Idle (e : Entry) : Prop :=
  (∀ tenant value given, e ≠ Entry.storing tenant value given) ∧
    ∀ tenant id, e ≠ Entry.deleting tenant id

theorem Entry.idle_small (tenant : String) (value : Json) :
    Idle ⟨tenant, .store value, .stored (.ok none)⟩ := by
  constructor
  · intro _ _ _ heq
    cases heq
  · intro _ _ heq
    cases heq

theorem Entry.idle_loaded (tenant : String) (request : Request) (result : Except Failure Record) :
    Idle ⟨tenant, request, .loaded result⟩ := by
  constructor
  · intro _ _ _ heq
    cases heq
  · intro _ _ heq
    cases heq

theorem Entry.idle_missing (tenant id : String) (failure : Failure) :
    Idle ⟨tenant, .delete id, .deleted (.error failure)⟩ := by
  constructor
  · intro _ _ _ heq
    cases heq
  · intro _ _ heq
    cases heq

theorem held_idle {e : Entry} (he : e.Idle) :
    Held (history ++ [e]) tenant id record ↔ Held history tenant id record := by
  rw [held_concat]
  constructor
  · rintro (⟨value', given', heq, -⟩ | ⟨hheld, -⟩)
    · exact absurd heq (he.1 tenant value' given')
    · exact hheld
  · exact fun hheld => .inr ⟨hheld, he.2 tenant id⟩

end

/-! ## Places

Every tenant has a directory of its own below the root. Two of them have no place in common, since
neither name leads out of it. -/

section

variable {root : String} (a b : Account root) (d : Disk)

theorem Account.dir_eq : a.store.dir = Path.join root a.tenant := by
  obtain ⟨threshold, deadline, h⟩ := a.made
  unfold make at h
  cases hcheck : Tenant.check a.tenant with
  | error e =>
    rw [hcheck] at h
    cases h
  | ok _ =>
    rw [hcheck] at h
    exact congrArg dir (Except.ok.inj h).symm

theorem Account.isValid : Tenant.isValid a.tenant = true := by
  obtain ⟨threshold, deadline, h⟩ := a.made
  by_contra hvalid
  rw [make, Tenant.check, if_neg hvalid] at h
  cases h

/-- The name of a tenant is the name of a directory. -/
theorem Account.plain : Disk.Plain a.tenant := by
  have hvalid := a.isValid
  simp only [Tenant.isValid, Bool.not_eq_true', Bool.or_eq_false_iff] at hvalid
  obtain ⟨⟨⟨⟨hempty, hdot⟩, hdots⟩, hslash⟩, -⟩ := hvalid
  refine ⟨fun hmem => ?_, ?_, ?_, ?_⟩
  · rw [List.contains_iff_mem.mpr hmem] at hslash
    cases hslash
  · intro heq
    rw [heq] at hempty
    exact absurd hempty (by decide)
  · intro heq
    rw [heq] at hdot
    exact absurd hdot (by decide)
  · intro heq
    rw [heq] at hdots
    exact absurd hdots (by decide)

/-- The directory of a tenant has the name of the tenant, below the root. -/
theorem Account.home_eq : d.home a.store.dir = d.home root ++ [a.tenant] := by
  rw [a.dir_eq, Disk.home_join d root a.plain]

theorem Account.trailOf_eq :
    d.trailOf a.store.dir = d.trailOf root ++ [d.home root ++ [a.tenant]] := by
  rw [a.dir_eq, Disk.trailOf_join d root a.plain]

variable {a b}

/-- **Tenants do not meet.** -/
theorem Account.place_inj {file other : String} :
    d.home a.store.dir ++ [file] = d.home b.store.dir ++ [other] ↔
      a.tenant = b.tenant ∧ file = other := by
  rw [a.home_eq, b.home_eq]
  simp

/-- A file that does not stand in the way of its own directory stands in the way of none. -/
theorem Account.apart {file : String}
    (h : d.home b.store.dir ++ [file] ∉ d.trailOf b.store.dir) :
    d.home b.store.dir ++ [file] ∉ d.trailOf a.store.dir := by
  rw [b.trailOf_eq, b.home_eq, List.mem_append, not_or] at h
  rw [a.trailOf_eq, b.home_eq, List.mem_append, not_or, List.mem_singleton]
  refine ⟨h.1, fun heq => ?_⟩
  have hlength := congrArg List.length heq
  simp at hlength

end

/-! ## The disk -/

/-- A disk on which a store meets no fault and finds nothing: its directory can be made, and in it no
record is found, nor one that is being written. -/
def Vacant (s : RecordStore) (d : Disk) : Prop :=
  ∃ d', d.createDirs s.dir = .ok d' ∧ ∀ id, ZBase32.isId id = true →
    d'.read (Path.join s.dir (fileName id)) = some (.error .notFound) ∧
    d'.read (Path.join s.dir (stagingName id)) = some (.error .notFound)

section

variable {s : RecordStore} {d : Disk}

theorem Vacant.named_unused {d' : Disk} (hdirs : d.createDirs s.dir = .ok d') {name : String}
    (hplain : Disk.Plain name) (hread : d'.read (Path.join s.dir name) = some (.error .notFound)) :
    d.Named s.dir name ∧ s.Unused d name := by
  obtain ⟨hworking, hnode⟩ := Disk.node?_createDirs hdirs
  have hpass := Disk.passable_createDirs hdirs
  have hmade := Disk.made_of_present hpass (Disk.present_createDirs hdirs)
  rw [Disk.home_of_working hworking] at hmade
  obtain ⟨hlocate, hnone⟩ := Disk.locate_of_notFound hmade hplain hread
  refine ⟨(Disk.Named.of_locate hmade hplain hlocate).of_working hworking.symm, ?_⟩
  rw [hnode] at hnone
  -- where a directory was made, something is found
  by_cases htrail : d.home s.dir ++ [name] ∈ d.trailOf s.dir
  · rw [if_pos htrail] at hnone
    cases hnone
  · rw [if_neg htrail] at hnone
    exact ⟨htrail, hnone⟩

variable (h : s.Vacant d)

include h

theorem Vacant.usable : s.Usable d := by
  obtain ⟨d', hdirs, hread⟩ := h
  exact ⟨Disk.createDirs_iff.mp ⟨d', hdirs⟩,
    fun id hid => (named_unused hdirs (plain_fileName hid) (hread id hid).1).1,
    fun id hid => (named_unused hdirs (plain_stagingName hid) (hread id hid).2).1⟩

theorem Vacant.file {id : String} (hid : ZBase32.isId id = true) : s.Unused d (fileName id) := by
  obtain ⟨d', hdirs, hread⟩ := h
  exact (named_unused hdirs (plain_fileName hid) (hread id hid).1).2

theorem Vacant.staging {id : String} (hid : ZBase32.isId id = true) :
    s.Unused d (stagingName id) := by
  obtain ⟨d', hdirs, hread⟩ := h
  exact (named_unused hdirs (plain_stagingName hid) (hread id hid).2).2

omit h

/-- A disk is vacant for a store if nothing is in its way and nothing is at the places of its files. -/
theorem vacant_iff : s.Vacant d ↔ s.Usable d ∧ ∀ id, ZBase32.isId id = true →
    s.Unused d (fileName id) ∧ s.Unused d (stagingName id) := by
  refine ⟨fun h => ⟨h.usable, fun id hid => ⟨h.file hid, h.staging hid⟩⟩, fun ⟨hs, hunused⟩ => ?_⟩
  obtain ⟨d', hdirs⟩ := Disk.createDirs_iff.mpr hs.passable
  obtain ⟨hworking, hnode⟩ := Disk.node?_createDirs hdirs
  have hpass := Disk.passable_createDirs hdirs
  have hread : ∀ name, Disk.Plain name → d.Named s.dir name → s.Unused d name →
      d'.read (Path.join s.dir name) = some (.error .notFound) := by
    intro name hplain hnamed ⟨htrail, hnone⟩
    refine Disk.read_absent hpass hplain (hnamed.of_working hworking) ?_
    rw [Disk.home_of_working hworking, hnode, if_neg htrail]
    exact hnone
  exact ⟨d', hdirs, fun id hid =>
    ⟨hread _ (plain_fileName hid) (hs.file id hid) (hunused id hid).1,
      hread _ (plain_stagingName hid) (hs.staging id hid) (hunused id hid).2⟩⟩

end

/-- Nothing is below a root, and the way to the root does not come by there. -/
structure Bare (root : String) (d : Disk) : Prop where
  passable : d.Passable root
  unused : ∀ names, names ≠ [] →
    d.home root ++ names ∉ d.trailOf root ∧ d.node? (d.home root ++ names) = none

/-- **Tenants below a bare root.** A disk is vacant for a tenant whose name can name a directory on it:
the name is not too long, and there is no zero byte in it. -/
theorem Account.vacant {root : String} (a : Account root) {d : Disk} (h : Bare root d)
    (hroot : '\x00' ∉ root.toList) (htenant : '\x00' ∉ a.tenant.toList)
    (hname : a.tenant.utf8ByteSize ≤ Disk.maxName)
    (hpath : root.utf8ByteSize + 1 + a.tenant.utf8ByteSize + Disk.maxName < Disk.maxPath) :
    a.store.Vacant d := by
  have hnamed : d.Named root a.tenant :=
    Disk.named_of_short a.plain hroot htenant (by omega) hname
  have hpass : d.Passable a.store.dir := by
    rw [a.dir_eq]
    refine ⟨.inr hnamed.routed, ⟨fun name hmem => ?_, fun place hplace => ?_⟩⟩
    · rw [Disk.namesOf_join root a.plain, List.mem_append, List.mem_singleton] at hmem
      rcases hmem with hmem | rfl
      · exact h.passable.clear.short name hmem
      · exact hnamed.short
    · replace hplace : place ∈ d.trailOf (Path.join root a.tenant) := hplace
      rw [Disk.trailOf_join d root a.plain, List.mem_append, List.mem_singleton] at hplace
      rcases hplace with hplace | rfl
      · exact h.passable.clear.free place hplace
      · exact .inl (h.unused [a.tenant] (by simp)).2
  have hdir : '\x00' ∉ a.store.dir.toList ∧
      a.store.dir.utf8ByteSize + Disk.maxName < Disk.maxPath := by
    obtain ⟨sep, hsep, hjoin⟩ := Disk.join_eq root a.plain
    have hsize : sep.utf8ByteSize ≤ 1 ∧ '\x00' ∉ sep.toList := by
      rcases hsep with rfl | rfl <;> decide
    rw [a.dir_eq, hjoin]
    constructor
    · simp only [String.toList_append, List.mem_append]
      exact fun hmem => hmem.elim (fun hmem => hmem.elim hroot hsize.2) htenant
    · rw [String.utf8ByteSize_append, String.utf8ByteSize_append]
      omega
  -- every place below the directory of the tenant is below the root as well
  have hunused : ∀ file, a.store.Unused d file := by
    intro file
    obtain ⟨htrail, hnone⟩ := h.unused [a.tenant, file] (by simp)
    rw [Unused, a.home_eq, a.trailOf_eq, List.append_assoc, List.mem_append, not_or,
      List.mem_singleton]
    exact ⟨⟨htrail, by simp⟩, hnone⟩
  exact vacant_iff.mpr ⟨usable_of_short hpass hdir.1 hdir.2, fun id _ => ⟨hunused _, hunused _⟩⟩

end Stowage.RecordStore
