import Stowage.Proofs.Records.Atomic
import Stowage.Proofs.Records.Calls
/-!
# Stowage — what loading comes to

Loading a record asks for one file at most, that of the record, and changes nothing. What it comes to
is decided by the reply alone (`Loads`): the file may be missing, unreadable, or never be read to its
end; its content may be no record (`Decodes`), or a record that is not the one that was asked for
(`Stray`). A record is given only out of the file that is named for it.
-/

namespace Stowage

namespace Disk

variable {d : Disk} {path : String} {content : Bytes}

/-- A file is read if its path leads to it. -/
theorem read_eq_ok : d.read path = some (.ok content) ↔
    ∃ place, d.locate path = .ok ⟨place, false⟩ ∧ d.node? place = some (.file content) := by
  constructor
  · intro h
    rw [read] at h
    cases hlocate : d.locate path with
    | error e =>
      rw [hlocate] at h
      cases h
    | ok target =>
      obtain ⟨place, wantsDirectory⟩ := target
      rw [hlocate] at h
      simp only at h
      split at h
      · cases h
      · cases h
      -- only a file has content, and not by a path that asks for a directory
      · next found hnode =>
        cases wantsDirectory with
        | true => cases h
        | false =>
          cases h
          exact ⟨place, rfl, hnode⟩
      · split at h
        · cases h
        · cases h
  · rintro ⟨place, hlocate, hnode⟩
    exact read_file hlocate hnode

/-- What is read by the path of a name below a directory is what the file of that name holds. -/
theorem node?_of_read_join {dir name : String} (hplain : Plain name)
    (h : d.read (Path.join dir name) = some (.ok content)) :
    d.node? (d.home dir ++ [name]) = some (.file content) := by
  obtain ⟨place, hlocate, hnode⟩ := read_eq_ok.mp h
  cases locate_join_eq_ok hplain hlocate
  exact hnode

/-- A failing disk gives the content of a file only as it is. -/
theorem read_of_faulty {d' : Disk} (h : faulty (.read path) d (some (.ok content)) d') :
    d.read path = some (.ok content) := by
  obtain ⟨hreply | hreply | ⟨why, hreply⟩, -⟩ := h
  · exact hreply.symm
  · cases hreply
  · cases hreply

end Disk

namespace RecordStore

/-! ## The content of a file

A file may hold anything. What is loaded from it is decided by a list of checks, of which the first that
fails is reported. -/

/-- Why a record is not the one with an id: its kind is judged first, then its version, then its id. -/
inductive Stray (id path : String) (record : Record) : BadReference → Prop where
  | magic (h : record.magic ≠ Record.magicNumber) :
      Stray id path record (.badMagic path record.magic)
  | version (hmagic : record.magic = Record.magicNumber)
      (h : record.version ≠ Record.currentVersion) :
      Stray id path record (.unsupportedVersion path record.version)
  | id (hmagic : record.magic = Record.magicNumber)
      (hversion : record.version = Record.currentVersion) (h : record.id ≠ id) :
      Stray id path record (.foreignRecord path record.id)

/-- What the content of the file of a record comes to. -/
inductive Decodes (id path : String) (content : Bytes) : Except Failure Record → Prop where
  | corrupt (fault : Json.Fault) (h : Record.read content = .error fault) :
      Decodes id path content (.error (.encoding fault))
  | stray (record : Record) (why : BadReference) (h : Record.read content = .ok record)
      (hstray : Stray id path record why) :
      Decodes id path content (.error (.invalidReference why))
  | found (record : Record) (h : Intact id record content) : Decodes id path content (.ok record)

variable {s : RecordStore} {id path : String} {content : Bytes} {record : Record}
  {result other : Except Failure Record}

theorem check_of_stray {why : BadReference} (h : Stray id path record why) :
    check id path record = .error (.invalidReference why) := by
  cases h with
  | magic h => rw [check, if_pos h]
  | version hmagic h => rw [check, if_neg (not_not.mpr hmagic), if_pos h]
  | id hmagic hversion h =>
    rw [check, if_neg (not_not.mpr hmagic), if_neg (not_not.mpr hversion), if_pos h]

theorem check_of_intact (h : Intact id record content) : check id path record = .ok record := by
  rw [check, if_neg (not_not.mpr h.magic), if_neg (not_not.mpr h.version),
    if_neg (not_not.mpr h.id_eq)]

/-- A record is the one with an id, or it is refused for one reason. -/
theorem stray_or (h : Record.read content = .ok record) :
    Intact id record content ∨ ∃ why, Stray id path record why := by
  by_cases hmagic : record.magic = Record.magicNumber
  · by_cases hversion : record.version = Record.currentVersion
    · by_cases hid : record.id = id
      · exact .inl ⟨h, hmagic, hversion, hid⟩
      · exact .inr ⟨_, .id hmagic hversion hid⟩
    · exact .inr ⟨_, .version hmagic hversion⟩
  · exact .inr ⟨_, .magic hmagic⟩

theorem exists_decodes (id path : String) (content : Bytes) :
    ∃ result, Decodes id path content result := by
  cases hread : Record.read content with
  | error fault => exact ⟨_, .corrupt fault hread⟩
  | ok record =>
    have hone : Intact id record content ∨ ∃ why, Stray id path record why := stray_or hread
    rcases hone with hintact | ⟨why, hstray⟩
    · exact ⟨_, .found record hintact⟩
    · exact ⟨_, .stray record why hread hstray⟩

/-- **The content of a file** comes to one thing. -/
theorem decode_eq_iff : decode id path content = result ↔ Decodes id path content result := by
  have hdecode : ∀ {other}, Decodes id path content other → decode id path content = other := by
    intro other h
    cases h with
    | corrupt fault h => rw [decode, h]
    | stray record why h hstray =>
      rw [decode, h]
      exact check_of_stray hstray
    | found record h =>
      rw [decode, h.read]
      exact check_of_intact h
  refine ⟨?_, hdecode⟩
  rintro rfl
  obtain ⟨other, h⟩ := exists_decodes id path content
  exact hdecode h ▸ h

/-! ## Loading

Loading asks one question at most, so its outcome is a function of the reply. -/

/-- What loading the record with an id comes to, by what was asked and answered. -/
inductive Loads (s : RecordStore) (id : String) :
    List Program.Exchange → Except Failure Record → Prop where
  | malformed (hid : ¬ ZBase32.isId id = true) :
      Loads s id [] (.error (.invalidReference (.malformedId id)))
  | missing (hid : ZBase32.isId id = true) :
      Loads s id [⟨.read (Path.join s.dir (fileName id)), some (.error .notFound)⟩]
        (.error (.notFound id))
  | unreadable (hid : ZBase32.isId id = true) (why : Disk.Error) (hwhy : why ≠ .notFound) :
      Loads s id [⟨.read (Path.join s.dir (fileName id)), some (.error why)⟩]
        (.error (.transport 0 (.file .access (Path.join s.dir (fileName id)) why)))
  | late (hid : ZBase32.isId id = true) :
      Loads s id [⟨.read (Path.join s.dir (fileName id)), none⟩] (.error (.timeout s.deadline))
  | read (hid : ZBase32.isId id = true) (content : Bytes) (result : Except Failure Record)
      (h : Decodes id (Path.join s.dir (fileName id)) content result) :
      Loads s id [⟨.read (Path.join s.dir (fileName id)), some (.ok content)⟩] result

/-- Loading asks nothing for an id that is none. -/
theorem load_of_not_isId (hid : ¬ ZBase32.isId id = true) :
    s.load id = .done (.error (.invalidReference (.malformedId id))) := by
  rw [load, recordPath, if_neg hid]

theorem accessFailure_of_ne {why : Disk.Error} (hwhy : why ≠ .notFound) (id path : String) :
    accessFailure id path why = .transport 0 (.file .access path why) := by
  cases why with
  | notFound => exact absurd rfl hwhy
  | _ => rfl

theorem loads_made (hid : ZBase32.isId id = true) (reply : Option (Except Disk.Error Bytes)) :
    Loads s id [⟨.read (Path.join s.dir (fileName id)), reply⟩] (s.made id reply) := by
  rcases reply with _ | why | content
  · exact .late hid
  · by_cases hwhy : why = .notFound
    · rw [hwhy]
      exact .missing hid
    · rw [made, accessFailure_of_ne hwhy]
      exact .unreadable hid why hwhy
  · exact .read hid content _ (decode_eq_iff.mp rfl)

/-- Nothing is asked, or one question: for the file of the record. -/
theorem Loads.log_cases {log : List Program.Exchange} (h : Loads s id log result) :
    (log = [] ∧ ¬ ZBase32.isId id = true ∧
        result = .error (.invalidReference (.malformedId id))) ∨
      ∃ reply, log = [⟨.read (Path.join s.dir (fileName id)), reply⟩] ∧
        ZBase32.isId id = true ∧ result = s.made id reply := by
  cases h with
  | malformed hid => exact .inl ⟨rfl, hid, rfl⟩
  | missing hid => exact .inr ⟨_, rfl, hid, rfl⟩
  | unreadable hid why hwhy => exact .inr ⟨_, rfl, hid, by rw [made, accessFailure_of_ne hwhy]⟩
  | late hid => exact .inr ⟨_, rfl, hid, rfl⟩
  | read hid content _ h => exact .inr ⟨_, rfl, hid, (decode_eq_iff.mpr h).symm⟩

/-- By the calls that were made and their replies, loading comes to one thing. -/
theorem Loads.unique {log : List Program.Exchange} (h : Loads s id log result)
    (h' : Loads s id log other) : result = other := by
  rcases h.log_cases with ⟨rfl, -, rfl⟩ | ⟨reply, rfl, -, rfl⟩
  · rcases h'.log_cases with ⟨-, -, rfl⟩ | ⟨_, hlog, -, -⟩
    · rfl
    · cases hlog
  · rcases h'.log_cases with ⟨hlog, -, -⟩ | ⟨reply', hlog, -, rfl⟩
    · cases hlog
    · cases hlog
      rfl

theorem Loads.iff_eq {log : List Program.Exchange} (h : Loads s id log result) :
    Loads s id log other ↔ other = result :=
  ⟨fun h' => h'.unique h, fun heq => heq ▸ h⟩

/-- On a disk that can fail at any moment, loading comes to the one thing that its reply decides, and
the disk is left as it was. -/
theorem ends_load_iff {d d' : Disk} {log : List Program.Exchange} :
    Program.Ends Disk.faulty (s.load id) d log result d' ↔
      d' = d ∧ (∀ other, Loads s id log other ↔ other = result) ∧
        ∀ e ∈ log, Disk.faulty e.1 d e.2 d := by
  -- an id that is none is refused without a call; any other one leads to a single read
  by_cases hid : ZBase32.isId id = true
  · rw [load_of_isId hid, Program.ends_call]
    constructor
    · rintro ⟨reply, d₁, rest, rfl, ⟨hreply, rfl⟩, hdone⟩
      obtain ⟨rfl, rfl, rfl⟩ := Program.ends_done.mp hdone
      refine ⟨rfl, fun _ => (loads_made hid reply).iff_eq, fun e he => ?_⟩
      cases List.mem_singleton.mp he
      exact ⟨hreply, rfl⟩
    · rintro ⟨rfl, hloads, hlog⟩
      rcases ((hloads result).mpr rfl).log_cases with ⟨-, hno, -⟩ | ⟨reply, rfl, -, rfl⟩
      · exact absurd hid hno
      · exact ⟨reply, d', [], rfl, hlog _ (List.mem_singleton_self _), .done _ _⟩
  · rw [load_of_not_isId hid, Program.ends_done]
    constructor
    · rintro ⟨rfl, rfl, rfl⟩
      exact ⟨rfl, fun _ => (Loads.malformed hid).iff_eq, fun _ he => absurd he List.not_mem_nil⟩
    · rintro ⟨rfl, hloads, -⟩
      rcases ((hloads result).mpr rfl).log_cases with ⟨rfl, -, rfl⟩ | ⟨_, -, hyes, -⟩
      · exact ⟨rfl, rfl, rfl⟩
      · exact absurd hyes hid

/-- A run in memory leaves the whole world as it was, and is one of the ways to end. -/
theorem ends_run_load (s : RecordStore) (id : String) (w : World) :
    (World.run (s.load id) w).2 = w ∧
      Program.Ends Disk.faulty (s.load id) w.disk ((s.load id).exchanges World.answer w)
        (World.run (s.load id) w).1 w.disk := by
  by_cases hid : ZBase32.isId id = true
  · rw [load_of_isId hid]
    exact ⟨rfl, .call ⟨.inl rfl, rfl⟩ (.done _ _)⟩
  · rw [load_of_not_isId hid]
    exact ⟨rfl, .done _ _⟩

/-- A record is loaded exactly when the file that is named for it is read and holds it. -/
theorem ends_load_ok_iff {d d' : Disk} {log : List Program.Exchange} :
    Program.Ends Disk.faulty (s.load id) d log (.ok record) d' ↔
      d' = d ∧ ZBase32.isId id = true ∧ ∃ content,
        log = [⟨.read (Path.join s.dir (fileName id)), some (.ok content)⟩] ∧
        d.read (Path.join s.dir (fileName id)) = some (.ok content) ∧
        d.node? (d.home s.dir ++ [fileName id]) = some (.file content) ∧
        Intact id record content := by
  rw [ends_load_iff]
  constructor
  -- a record is only loaded from a reply with content, and that is what the disk has
  · rintro ⟨rfl, hloads, hlog⟩
    cases (hloads (.ok record)).mpr rfl with
    | read hid content _ hdecodes =>
      cases hdecodes with
      | found _ hintact =>
        have hread := Disk.read_of_faulty (hlog _ (List.mem_singleton_self _))
        exact ⟨rfl, hid, content, rfl, hread, Disk.node?_of_read_join (plain_fileName hid) hread,
          hintact⟩
  · rintro ⟨rfl, hid, content, rfl, hread, -, hintact⟩
    refine ⟨rfl, fun _ => (Loads.read hid content _ (.found record hintact)).iff_eq, fun e he => ?_⟩
    cases List.mem_singleton.mp he
    exact ⟨.inl hread.symm, rfl⟩

/-- **Loading gives the record that was asked for, or says why not.** Nothing changes, in memory or on a
disk that can fail at any moment; the calls that were made, none or one, and the reply decide what
loading comes to; and it comes to a record only if the file that is named for it holds that record. -/
theorem load_only_what_was_asked_for (s : RecordStore) (id : String) :
    (∀ w : World, (World.run (s.load id) w).2 = w ∧
      Program.Ends Disk.faulty (s.load id) w.disk ((s.load id).exchanges World.answer w)
        (World.run (s.load id) w).1 w.disk) ∧
    (∀ (d d' : Disk) (log : List Program.Exchange) (result : Except Failure Record),
      Program.Ends Disk.faulty (s.load id) d log result d' ↔
        d' = d ∧ (∀ other, Loads s id log other ↔ other = result) ∧
          ∀ e ∈ log, Disk.faulty e.1 d e.2 d) ∧
    ∀ (d d' : Disk) (log : List Program.Exchange) (record : Record),
      Program.Ends Disk.faulty (s.load id) d log (.ok record) d' ↔
        d' = d ∧ ZBase32.isId id = true ∧ ∃ content,
          log = [⟨.read (Path.join s.dir (fileName id)), some (.ok content)⟩] ∧
          d.read (Path.join s.dir (fileName id)) = some (.ok content) ∧
          d.node? (d.home s.dir ++ [fileName id]) = some (.file content) ∧
          Intact id record content :=
  ⟨ends_run_load s id, fun _ _ _ _ => ends_load_iff, fun _ _ _ _ => ends_load_ok_iff⟩

end RecordStore

end Stowage
