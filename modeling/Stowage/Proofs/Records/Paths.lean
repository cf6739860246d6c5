import Stowage.Proofs.Records.Conduct
import Stowage.Proofs.Records.Loading
/-!
# Stowage — the paths of records

The path of a record is the root, the tenant and the name of the file, and nothing else: both names
are components of a path (`Component`), so the path leads to a place two names below that of the root
(`Account.home_recordPath`). Different records have different paths, also where case is ignored, and
none is the path of a file that is still being written. No file is asked for with an id of another form.
-/

namespace Stowage.RecordStore

/-- One component of a path, whichever separator is used: no separator stands in it, and it is neither
empty nor one of the names with a meaning of their own. -/
structure Component (name : String) : Prop where
  plain : Disk.Plain name
  backslash : '\\' ∉ name.toList

section

variable {root : String} (a : Account root) {id : String}

theorem Account.component : Component a.tenant := by
  refine ⟨a.plain, fun hmem => ?_⟩
  have hvalid := a.isValid
  simp only [Tenant.isValid, Bool.not_eq_true', Bool.or_eq_false_iff] at hvalid
  rw [List.contains_iff_mem.mpr hmem] at hvalid
  exact absurd hvalid.2 (by decide)

theorem mem_alphabet_of_isId (hid : ZBase32.isId id = true) {c : Char} (hc : c ∈ id.toList) :
    c ∈ ZBase32.alphabet :=
  List.contains_iff_mem.mp (List.all_eq_true.mp (of_decide_eq_true hid).2 c hc)

/-- The file name of a record is a single component of a path. -/
theorem component_fileName (hid : ZBase32.isId id = true) : Component (fileName id) := by
  refine ⟨plain_fileName hid, fun hmem => ?_⟩
  rw [fileName, String.toList_append, List.mem_append] at hmem
  rcases hmem with hmem | hmem
  · exact absurd (mem_alphabet_of_isId hid hmem) (by decide)
  · exact absurd hmem (by decide)

/-- A record id has no uppercase letters. -/
theorem toLower_of_isId (hid : ZBase32.isId id = true) : id.toLower = id := by
  have hletters : (ZBase32.alphabet.all fun c => c.toLower == c) = true := by decide
  have hlower : id.toLower = id.map Char.toLower := rfl
  rw [← String.toList_inj, hlower, String.toList_map]
  refine (List.map_congr_left fun c hc => ?_).trans (List.map_id _)
  exact eq_of_beq (List.all_eq_true.mp hletters c (mem_alphabet_of_isId hid hc))

/-! ## Texts

Paths are joined as texts, with a separator where one is missing. Comparing the texts is not enough,
since two texts may lead to one place, so the names in them are compared as well. -/

/-- What stands between a path and a name below it. -/
def separator (dir : String) : String := if dir.isEmpty ∨ dir.endsWith "/" then "" else "/"

theorem join_of_plain (dir : String) {name : String} (h : Disk.Plain name) :
    Path.join dir name = dir ++ separator dir ++ name := by
  rw [Path.join, if_neg (by rw [h.not_startsWith]; decide), separator]
  split
  · rw [String.append_empty]
  · rfl

/-- Between a name and what is below it, a separator is needed. -/
theorem separator_append (front : String) {name : String} (h : Disk.Plain name) :
    separator (front ++ name) = "/" := by
  rw [separator, if_neg]
  rintro (hempty | hslash)
  · exact h.ne_empty (String.append_eq_empty_iff.mp (String.isEmpty_iff.mp hempty)).2
  · rw [Disk.endsWith_iff, String.toList_append] at hslash
    have hname : name.toList ≠ [] := mt String.toList_eq_nil_iff.mp h.ne_empty
    obtain ⟨start, last, hlast⟩ := (List.eq_nil_or_concat name.toList).resolve_left hname
    rw [List.concat_eq_append] at hlast
    rw [hlast, ← List.append_assoc] at hslash
    obtain ⟨before, hbefore⟩ := hslash
    obtain ⟨-, hchar⟩ := List.append_inj' hbefore rfl
    refine h.slash ?_
    rw [hlast, ← hchar]
    exact List.mem_append_right _ (by decide)

theorem exists_join (dir part : String) : ∃ front, Path.join dir part = front ++ part := by
  unfold Path.join
  split
  · exact ⟨"", String.empty_append.symm⟩
  · split
    · exact ⟨dir, rfl⟩
    · exact ⟨dir ++ "/", rfl⟩

theorem Account.recordPath_text (hid : ZBase32.isId id = true) :
    Path.join a.store.dir (fileName id) =
      root ++ separator root ++ a.tenant ++ "/" ++ fileName id := by
  rw [join_of_plain _ (plain_fileName hid), a.dir_eq, join_of_plain _ a.plain,
    separator_append _ a.plain]

theorem Account.namesOf_recordPath (hid : ZBase32.isId id = true) :
    Disk.namesOf (Path.join a.store.dir (fileName id)) =
      Disk.namesOf root ++ [a.tenant, fileName id] := by
  rw [Disk.namesOf_join _ (plain_fileName hid), a.dir_eq, Disk.namesOf_join _ a.plain,
    List.append_assoc]
  rfl

/-- **The place of a record** is two names below the place of the root. -/
theorem Account.home_recordPath (d : Disk) (hid : ZBase32.isId id = true) :
    d.home (Path.join a.store.dir (fileName id)) = d.home root ++ [a.tenant, fileName id] := by
  rw [Disk.home_join _ _ (plain_fileName hid), a.home_eq, List.append_assoc]
  rfl

/-- **Different records** have different paths, already by the names in them. -/
theorem Account.namesOf_recordPath_inj {b : Account root} {other : String}
    (hid : ZBase32.isId id = true) (hother : ZBase32.isId other = true) :
    Disk.namesOf (Path.join a.store.dir (fileName id)) =
        Disk.namesOf (Path.join b.store.dir (fileName other)) ↔
      a.tenant = b.tenant ∧ id = other := by
  rw [a.namesOf_recordPath hid, b.namesOf_recordPath hother, List.append_cancel_left_eq]
  simp only [List.cons.injEq, and_true]
  exact and_congr_right fun _ => ⟨fileName_injective, congrArg fileName⟩

theorem Account.recordPath_inj {b : Account root} {other : String} (hid : ZBase32.isId id = true)
    (hother : ZBase32.isId other = true) :
    Path.join a.store.dir (fileName id) = Path.join b.store.dir (fileName other) ↔
      a.tenant = b.tenant ∧ id = other := by
  refine ⟨fun heq => (a.namesOf_recordPath_inj hid hother).mp (congrArg Disk.namesOf heq), ?_⟩
  rintro ⟨htenant, rfl⟩
  rw [a.dir_eq, b.dir_eq, htenant]

/-- The path of a file that is still being written is never that of a record: they end in different
letters. -/
theorem join_stagingName_ne (dir dir' staged : String) (id : String) :
    Path.join dir (fileName id) ≠ Path.join dir' (stagingName staged) := by
  obtain ⟨front, hfront⟩ := exists_join dir (fileName id)
  obtain ⟨front', hfront'⟩ := exists_join dir' (stagingName staged)
  rw [hfront, hfront', fileName, stagingName, ← String.append_assoc, ← String.append_assoc]
  intro heq
  have hlast := congrArg (fun path => path.toList.getLast?) heq
  have hstaging : ".lmo.tmp".toList = ['.', 'l', 'm', 'o', '.', 't', 'm', 'p'] := by decide
  have hfile : ".lmo".toList = ['.', 'l', 'm', 'o'] := by decide
  simp [hstaging, hfile] at hlast

theorem namesOf_stagingName_ne (hid : ZBase32.isId id = true) (dir : String) {staged : String}
    (hstaged : ZBase32.isId staged = true) :
    Disk.namesOf (Path.join a.store.dir (fileName id)) ≠
      Disk.namesOf (Path.join dir (stagingName staged)) := by
  rw [Disk.namesOf_join _ (plain_fileName hid), Disk.namesOf_join _ (plain_stagingName hstaged)]
  intro heq
  obtain ⟨-, hlast⟩ := List.append_inj' heq rfl
  exact stagingName_ne_fileName _ _ (List.singleton_inj.mp hlast).symm

/-! ## Containment -/

/-- `Below root tenant file path`: a path is a root with exactly two components more, by its text, by the
names in it and by the place it leads to on a disk. -/
structure Below (root tenant file path : String) : Prop where
  text : path = root ++ separator root ++ tenant ++ "/" ++ file
  names : Disk.namesOf path = Disk.namesOf root ++ [tenant, file]
  place : ∀ d : Disk, d.home path = d.home root ++ [tenant, file]
  tenant : Component tenant
  file : Component file

/-- The form of a record id: 26 letters of the alphabet. -/
theorem isId_iff (id : String) : ZBase32.isId id = true ↔
    id.toList.length = 26 ∧ ∀ c ∈ id.toList, c ∈ "ybndrfg8ejkmcpqxot1uwisza345h769".toList := by
  rw [ZBase32.isId, decide_eq_true_iff, List.all_eq_true]
  exact and_congr_right fun _ => forall₂_congr fun c _ => List.contains_iff_mem

theorem delete_of_not_isId {s : RecordStore} (hid : ¬ ZBase32.isId id = true) :
    s.delete id = .done (.error (.invalidReference (.malformedId id))) := by
  rw [delete, recordPath, if_neg hid]

/-- **Records stay below their root, and apart.** Whatever the tenants and the ids are: the path of a
record is the root with two components more, different records have different paths, ids that differ do
so where case is ignored, and no record is at the path of a file that is still being written. Every
other id is refused without a call. -/
theorem records_contained_and_apart (root : String) :
    (∀ (a b : Account root) (id other path path' : String),
      a.store.recordPath id = .ok path → b.store.recordPath other = .ok path' →
        Below root a.tenant (id ++ ".lmo") path ∧
        (path = path' ↔ a.tenant = b.tenant ∧ id = other) ∧
        (Disk.namesOf path = Disk.namesOf path' ↔ a.tenant = b.tenant ∧ id = other) ∧
        (id.toLower = other.toLower ↔ id = other) ∧
        ∀ (s : RecordStore) (staged : String),
          path ≠ Path.join s.dir (staged ++ ".lmo.tmp") ∧
          (ZBase32.isId staged = true →
            Disk.namesOf path ≠ Disk.namesOf (Path.join s.dir (staged ++ ".lmo.tmp")))) ∧
    ∀ (s : RecordStore) (id : String),
      ¬ (id.toList.length = 26 ∧
          ∀ c ∈ id.toList, c ∈ "ybndrfg8ejkmcpqxot1uwisza345h769".toList) →
        s.recordPath id = .error (.invalidReference (.malformedId id)) ∧
        s.load id = .done (.error (.invalidReference (.malformedId id))) ∧
        s.delete id = .done (.error (.invalidReference (.malformedId id))) := by
  constructor
  · intro a b id other path path' hpath hpath'
    obtain ⟨hid, rfl⟩ := recordPath_eq_ok hpath
    obtain ⟨hother, rfl⟩ := recordPath_eq_ok hpath'
    refine ⟨⟨a.recordPath_text hid, a.namesOf_recordPath hid, fun d => a.home_recordPath d hid,
      a.component, component_fileName hid⟩, a.recordPath_inj hid hother,
      a.namesOf_recordPath_inj hid hother, ?_,
      fun s staged => ⟨join_stagingName_ne _ _ staged id,
        fun hstaged => namesOf_stagingName_ne a hid s.dir hstaged⟩⟩
    -- ids have no uppercase letters, so ignoring case makes no two of them equal
    rw [toLower_of_isId hid, toLower_of_isId hother]
  -- an id that is none gets no path, and so no call
  · intro s id hform
    have hid : ¬ ZBase32.isId id = true := mt (isId_iff id).mp hform
    exact ⟨by rw [recordPath, if_neg hid], load_of_not_isId hid, delete_of_not_isId hid⟩

end

/-- Two tenants may have records with the same id. -/
theorem records_contained_and_apart_tenants :
    ann.store.recordPath "yyyyyyyyybyybyyyyyyyyyyyyr" =
        .ok "records/ann/yyyyyyyyybyybyyyyyyyyyyyyr.lmo" ∧
      ben.store.recordPath "yyyyyyyyybyybyyyyyyyyyyyyr" =
        .ok "records/ben/yyyyyyyyybyybyyyyyyyyyyyyr.lmo" ∧
      Below "records" "ann" "yyyyyyyyybyybyyyyyyyyyyyyr.lmo"
        "records/ann/yyyyyyyyybyybyyyyyyyyyyyyr.lmo" ∧
      ann.store.load "../ben/yyyyyyyyybyybyyyyyr" =
        .done (.error (.invalidReference (.malformedId "../ben/yyyyyyyyybyybyyyyyr"))) := by
  have hann : ann.store.recordPath "yyyyyyyyybyybyyyyyyyyyyyyr" =
      .ok "records/ann/yyyyyyyyybyybyyyyyyyyyyyyr.lmo" := by decide +kernel
  have hben : ben.store.recordPath "yyyyyyyyybyybyyyyyyyyyyyyr" =
      .ok "records/ben/yyyyyyyyybyybyyyyyyyyyyyyr.lmo" := by decide +kernel
  -- as long as an id, but with dots
  have hdot : '.' ∈ "../ben/yyyyyyyyybyybyyyyyr".toList := by decide
  obtain ⟨hrecords, hrefused⟩ := records_contained_and_apart "records"
  exact ⟨hann, hben, (hrecords ann ben _ _ _ _ hann hben).1,
    (hrefused ann.store _ fun hform => absurd (hform.2 _ hdot) (by decide)).2.1⟩

end Stowage.RecordStore
