import Stowage.Proofs.Records.Ledger
/-!
# Stowage — what the stores below a root answer

The disk agrees with the history of calls (`Kept`, `Agrees`) after every call, whichever tenant makes
it and whatever comes of it (`agrees_perform`), hence after any number of calls (`agrees_conduct`). So
every call is answered as by a map from tenants and ids to records (`conduct_answers`).
-/

namespace Stowage.RecordStore

/-! ## Agreement of the disk with the history

The history says which records a store holds, and the disk which files are there. They agree if there is
a file for every record that is held, and no other at a place of a record. -/

/-- The disk agrees with the history for one account: the files that stand at the places of records
are those of the records that are held. `start` is the disk on which the history began. -/
structure Kept {root : String} (start : Disk) (history : List Entry) (a : Account root) (d : Disk) :
    Prop where
  working : d.working = start.working
  trail : ∀ place ∈ start.trailOf a.store.dir,
    d.node? place = none ∨ d.node? place = some .directory
  present : ∀ id record, Held history a.tenant id record →
    ∀ place ∈ start.trailOf a.store.dir, d.node? place = some .directory
  file : ∀ id record, Held history a.tenant id record → ZBase32.isId id = true ∧
    ∃ content, Intact id record content ∧
      d.node? (start.home a.store.dir ++ [fileName id]) = some (.file content)
  noFile : ∀ id, ZBase32.isId id = true → (∀ record, ¬ Held history a.tenant id record) →
    d.node? (start.home a.store.dir ++ [fileName id]) = none
  noStaging : ∀ id, ZBase32.isId id = true →
    d.node? (start.home a.store.dir ++ [stagingName id]) = none

section

variable {root : String} {a b : Account root} {start d d' : Disk} {history : List Entry} {id : String}

/-- A vacant disk agrees with an empty history. -/
theorem kept_nil (ha : a.store.Vacant start) : Kept start [] a start :=
  ⟨rfl, ha.usable.passable.clear.free, fun _ _ hheld => absurd hheld not_held_nil,
    fun _ _ hheld => absurd hheld not_held_nil, fun _ hid _ => (ha.file hid).2,
    fun _ hid => (ha.staging hid).2⟩

/-- An entry that changes nothing keeps the agreement. -/
theorem Kept.idle {e : Entry} (h : Kept start history a d) (he : e.Idle) :
    Kept start (history ++ [e]) a d := by
  refine ⟨h.working, h.trail, fun id record hheld => ?_, fun id record hheld => ?_,
    fun id hid hnone => ?_, h.noStaging⟩
  · exact h.present id record ((held_idle he).mp hheld)
  · exact h.file id record ((held_idle he).mp hheld)
  · exact h.noFile id hid fun record hheld => hnone record ((held_idle he).mpr hheld)

theorem Kept.usable (h : Kept start history a d) (ha : a.store.Vacant start) : a.store.Usable d :=
  ⟨ha.usable.passable.of_working h.working h.trail,
    fun id hid => (ha.usable.file id hid).of_working h.working,
    fun id hid => (ha.usable.staging id hid).of_working h.working⟩

/-- **Storing.** The file of a fresh record is put where nothing is, for its own account and for all
others. -/
theorem Kept.storing {value : Json} {given : Record} {content : Bytes}
    (h : Kept start history a d) (ha : a.store.Vacant start) (hb : b.store.Vacant start)
    (hid : ZBase32.isId id = true) (hstored : Stored b.store id content d d')
    (hgiven : given.id = id) (hintact : Intact id { given with data := some value } content)
    (hfresh : ∀ record, ¬ Held history b.tenant id record) :
    Kept start (history ++ [Entry.storing b.tenant value given]) a d' := by
  subst hgiven
  have hnode : ∀ place, d'.node? place =
      if place = start.home b.store.dir ++ [fileName given.id] then some (.file content)
      else if place ∈ start.trailOf b.store.dir then some .directory else d.node? place := by
    rw [← Disk.home_of_working h.working, ← Disk.trailOf_of_working h.working]
    exact hstored.node?_eq
  have hnew : ∀ place ∈ start.trailOf a.store.dir,
      place ≠ start.home b.store.dir ++ [fileName given.id] := by
    rintro _ hplace rfl
    exact Account.apart start (hb.file hid).1 hplace
  -- what is on the trail of the account is a directory now, or what it was before
  have htrail : ∀ place ∈ start.trailOf a.store.dir,
      d'.node? place = some .directory ∨ d'.node? place = d.node? place := by
    intro place hplace
    rw [hnode, if_neg (hnew place hplace)]
    split
    · exact .inl rfl
    · exact .inr rfl
  -- what is at another place below its directory stays as it is
  have hother : ∀ file, start.home a.store.dir ++ [file] ∉ start.trailOf a.store.dir →
      ¬ (a.tenant = b.tenant ∧ file = fileName given.id) →
        d'.node? (start.home a.store.dir ++ [file]) = d.node? (start.home a.store.dir ++ [file]) := by
    intro file hfile hne
    rw [hnode, if_neg fun heq => hne ((Account.place_inj start).mp heq),
      if_neg (Account.apart start hfile)]
  refine ⟨hstored.working.trans h.working, fun place hplace => ?_, fun other record hheld => ?_,
    fun other record hheld => ?_, fun other hother' hnone => ?_, fun other hother' => ?_⟩
  · rcases htrail place hplace with heq | heq
    · exact .inr heq
    · rw [heq]
      exact h.trail place hplace
  · intro place hplace
    rcases htrail place hplace with heq | heq
    · exact heq
    · rcases held_storing.mp hheld with ⟨htenant, -, -⟩ | hheld
      · rw [hnode, if_neg (hnew place hplace), if_pos]
        rwa [b.trailOf_eq, ← htenant, ← a.trailOf_eq]
      · rw [heq]
        exact h.present other record hheld place hplace
  · rcases held_storing.mp hheld with ⟨htenant, rfl, rfl⟩ | hheld
    · refine ⟨hid, content, hintact, ?_⟩
      rw [hnode, if_pos ((Account.place_inj start).mpr ⟨htenant, rfl⟩)]
    · obtain ⟨hother', content', hintact', hfile⟩ := h.file other record hheld
      refine ⟨hother', content', hintact', ?_⟩
      rw [hother _ (ha.file hother').1]
      · exact hfile
      · rintro ⟨htenant, heq⟩
        rw [htenant, fileName_injective heq] at hheld
        exact hfresh record hheld
  · rw [hother _ (ha.file hother').1]
    · exact h.noFile other hother' fun record hheld => hnone record (held_storing.mpr (.inr hheld))
    · rintro ⟨htenant, heq⟩
      exact hnone _ (held_storing.mpr (.inl ⟨htenant, fileName_injective heq, rfl⟩))
  · rw [hother _ (ha.staging hother').1]
    · exact h.noStaging other hother'
    · rintro ⟨-, heq⟩
      exact stagingName_ne_fileName _ _ heq

/-- **Deleting.** Only the file of the record goes. -/
theorem Kept.deleting (h : Kept start history a d) (hb : b.store.Vacant start)
    (hid : ZBase32.isId id = true) :
    Kept start (history ++ [Entry.deleting b.tenant id]) a
      (d.erase (d.home b.store.dir ++ [fileName id])) := by
  have hnode : ∀ place, (d.erase (d.home b.store.dir ++ [fileName id])).node? place =
      if place = start.home b.store.dir ++ [fileName id] then none else d.node? place := by
    rw [← Disk.home_of_working h.working]
    exact Disk.node?_erase d (List.append_ne_nil_of_right_ne_nil _ (by simp))
  -- no record is on a trail, so that directories stay
  have htrail : ∀ place ∈ start.trailOf a.store.dir,
      (d.erase (d.home b.store.dir ++ [fileName id])).node? place = d.node? place := by
    intro place hplace
    rw [hnode, if_neg]
    rintro rfl
    exact Account.apart start (hb.file hid).1 hplace
  have hother : ∀ file, ¬ (a.tenant = b.tenant ∧ file = fileName id) →
      (d.erase (d.home b.store.dir ++ [fileName id])).node? (start.home a.store.dir ++ [file]) =
        d.node? (start.home a.store.dir ++ [file]) := by
    intro file hne
    rw [hnode, if_neg fun heq => hne ((Account.place_inj start).mp heq)]
  refine ⟨h.working, fun place hplace => ?_, fun other record hheld => ?_,
    fun other record hheld => ?_, fun other hother' hnone => ?_, fun other hother' => ?_⟩
  · rw [htrail place hplace]
    exact h.trail place hplace
  · intro place hplace
    rw [htrail place hplace]
    exact h.present other record (held_deleting.mp hheld).1 place hplace
  · obtain ⟨hheld, hne⟩ := held_deleting.mp hheld
    obtain ⟨hother', content, hintact, hfile⟩ := h.file other record hheld
    refine ⟨hother', content, hintact, ?_⟩
    rw [hother]
    · exact hfile
    · rintro ⟨htenant, heq⟩
      exact hne ⟨htenant, fileName_injective heq⟩
  · by_cases hsame : a.tenant = b.tenant ∧ other = id
    · obtain ⟨htenant, rfl⟩ := hsame
      rw [hnode, if_pos ((Account.place_inj start).mpr ⟨htenant, rfl⟩)]
    · rw [hother]
      · exact h.noFile other hother' fun record hheld =>
          hnone record (held_deleting.mpr ⟨hheld, hsame⟩)
      · rintro ⟨htenant, heq⟩
        exact hsame ⟨htenant, fileName_injective heq⟩
  · rw [hother]
    · exact h.noStaging other hother'
    · rintro ⟨-, heq⟩
      exact stagingName_ne_fileName _ _ heq

end

/-! ## Fresh ids

An id is drawn, and nothing prevents it from being drawn twice. That the draws of a run differ, from
each other and from what was there, is assumed and used up one draw at a time. -/

/-- The next record ids are distinct, and nothing is held under any of them. -/
structure Fresh (history : List Entry) (n : Nat) (dice : World.Dice) : Prop where
  draws : ∀ draw ∈ dice.draws n, draw.length = 16
  distinct : (dice.recordIds n).Nodup
  unused : ∀ id ∈ dice.recordIds n, ∀ tenant record, ¬ Held history tenant id record

section

variable {history : List Entry} {n : Nat} {dice : World.Dice}

theorem draws_succ (n : Nat) : ∀ dice : World.Dice, dice.draws n <+: dice.draws (n + 1) := by
  induction n with
  | zero => exact fun _ => List.nil_prefix
  | succ n ih => exact fun dice => List.cons_prefix_cons.mpr ⟨rfl, ih dice.draw.2⟩

theorem Fresh.skip {e : Entry} (h : Fresh history (n + 1) dice)
    (he : ∀ tenant value given, e ≠ Entry.storing tenant value given) :
    Fresh (history ++ [e]) n dice := by
  have hids : dice.recordIds n <+: dice.recordIds (n + 1) := (draws_succ n dice).map _
  refine ⟨fun draw hdraw => h.draws draw ((draws_succ n dice).subset hdraw),
    hids.sublist.nodup h.distinct, fun id hid tenant record hheld => ?_⟩
  rcases held_concat.mp hheld with ⟨value, given, heq, -⟩ | ⟨hheld, -⟩
  · exact he _ _ _ heq
  · exact h.unused id (hids.subset hid) tenant record hheld

theorem Fresh.draw {tenant : String} {value : Json} {given : Record}
    (h : Fresh history (n + 1) dice)
    (hgiven : given.id = Record.idOf (Uuid.ofRandom dice.draw.1)) :
    Fresh (history ++ [Entry.storing tenant value given]) n dice.draw.2 := by
  have hids : dice.recordIds (n + 1) =
      Record.idOf (Uuid.ofRandom dice.draw.1) :: dice.draw.2.recordIds n := rfl
  have hdistinct := h.distinct
  rw [hids, List.nodup_cons] at hdistinct
  refine ⟨fun draw hdraw => h.draws draw (List.mem_cons_of_mem _ hdraw), hdistinct.2,
    fun id hid other record hheld => ?_⟩
  rcases held_storing.mp hheld with ⟨-, rfl, -⟩ | hheld
  · exact hdistinct.1 (hgiven ▸ hid)
  · exact h.unused id (List.mem_cons_of_mem _ hid) other record hheld

end

/-! ## One request -/

/-- A value that is read back as it is: not `null`, without fractions, not nested too deep for the
reader of records, and with a text of which the length is a 64-bit number. -/
structure Storable (value : Json) : Prop where
  ne_null : value ≠ .null
  whole : Json.IsWhole value
  nested : Json.Nested (Json.maxDepth - 1) value
  inRange : value.print.length < Json.wordLimit

/-- The values of a request can be stored. -/
def Request.Fits : Request → Prop
  | .store value => Storable value
  | _ => True

theorem intact_stored (id : String) {value : Json} (h : Storable value) :
    Intact id { Record.reference id value.print with data := some value }
      (Record.stored id value.print value).toJson.print := by
  refine ⟨?_, rfl, rfl, rfl⟩
  rw [Record.read_print_stored id h.inRange h.nested h.whole, Record.kept_of_ne h.ne_null]

section

variable {root : String} {a : Account root} {start : Disk} {history : List Entry} {w : World}

theorem run_loadFrom (s : RecordStore) (value : Json) (w : World) :
    World.run (s.loadFrom value) w =
      match (value.get? "id").bind Json.toText? with
      | some id => World.run (s.load id) w
      | none => (.error (.invalidReference .recordWithoutId), w) := by
  unfold loadFrom
  cases (value.get? "id").bind Json.toText? <;> rfl

theorem run_loadFrom_world (s : RecordStore) (value : Json) (w : World) :
    (World.run (s.loadFrom value) w).2 = w := by
  rw [run_loadFrom]
  cases (value.get? "id").bind Json.toText? with
  | none => rfl
  | some id => exact run_load_world s id w

section

variable (hkept : Kept start history a w.disk) (ha : a.store.Vacant start)

include hkept ha

theorem Kept.run_load_held {id : String} {record : Record}
    (hheld : Held history a.tenant id record) : World.run (a.store.load id) w = (.ok record, w) := by
  obtain ⟨hid, content, hintact, hfile⟩ := hkept.file id record hheld
  rw [← Disk.home_of_working hkept.working] at hfile
  exact run_load_present (hkept.usable ha) hid
    ((Disk.present_iff hkept.working).mpr (hkept.present id record hheld)) hfile hintact

theorem Kept.run_load_absent {id : String} (hnone : ∀ record, ¬ Held history a.tenant id record) :
    World.run (a.store.load id) w = (.error (absence id), w) := by
  refine RecordStore.run_load_absent (hkept.usable ha) fun hid => ?_
  rw [Disk.home_of_working hkept.working]
  exact hkept.noFile id hid hnone

theorem Kept.run_delete_held {id : String} {record : Record}
    (hheld : Held history a.tenant id record) :
    World.run (a.store.delete id) w = (.ok (),
      { w with disk := w.disk.erase (w.disk.home a.store.dir ++ [fileName id]) }) := by
  obtain ⟨hid, content, -, hfile⟩ := hkept.file id record hheld
  rw [← Disk.home_of_working hkept.working] at hfile
  exact run_delete_present (hkept.usable ha) hid
    ((Disk.present_iff hkept.working).mpr (hkept.present id record hheld)) hfile

theorem Kept.run_delete_absent {id : String} (hnone : ∀ record, ¬ Held history a.tenant id record) :
    World.run (a.store.delete id) w = (.error (absence id), w) := by
  refine RecordStore.run_delete_absent (hkept.usable ha) fun hid => ?_
  rw [Disk.home_of_working hkept.working]
  exact hkept.noFile id hid hnone

theorem Kept.run_store_held {value : Json} {n : Nat} (hfresh : Fresh history (n + 1) w.dice)
    (hlarge : a.store.threshold < value.print.length) :
    ∃ id d', id = Record.idOf (Uuid.ofRandom w.dice.draw.1) ∧ ZBase32.isId id = true ∧
      (∀ tenant record, ¬ Held history tenant id record) ∧
      World.run (a.store.store value value.print) w =
        (.ok (some (Record.reference id value.print)),
          { w with dice := w.dice.draw.2, disk := d' }) ∧
      Stored a.store id (Record.stored id value.print value).toJson.print w.disk d' := by
  set id := Record.idOf (Uuid.ofRandom w.dice.draw.1) with hdraw
  have hmem : id ∈ w.dice.recordIds (n + 1) := List.mem_cons_self ..
  have hid := Local.isId_of_mem_recordIds hfresh.draws hmem
  have hunused := hfresh.unused id hmem
  -- the id is fresh, so nothing is at either of its places
  have hfile : a.store.Unused w.disk (fileName id) := by
    rw [Unused, Disk.home_of_working hkept.working, Disk.trailOf_of_working hkept.working]
    exact ⟨(ha.file hid).1, hkept.noFile id hid (hunused a.tenant)⟩
  have hstaging : a.store.Unused w.disk (stagingName id) := by
    rw [Unused, Disk.home_of_working hkept.working, Disk.trailOf_of_working hkept.working]
    exact ⟨(ha.staging hid).1, hkept.noStaging id hid⟩
  obtain ⟨d', hrun, hstored⟩ :=
    run_store_large (hkept.usable ha) hlarge hid hdraw.symm hfile hstaging
  exact ⟨id, d', rfl, hid, hunused, hrun, hstored⟩

end

/-- A world agrees with a history that began on a disk: the files of all accounts that found nothing at
the start do, and the next record ids are fresh. -/
structure Agrees (root : String) (start : Disk) (history : List Entry) (n : Nat) (w : World) :
    Prop where
  kept : ∀ a : Account root, a.store.Vacant start → Kept start history a w.disk
  fresh : Fresh history n w.dice

theorem Agrees.idle {e : Entry} {n : Nat} (h : Agrees root start history (n + 1) w) (he : e.Idle) :
    Agrees root start (history ++ [e]) n w :=
  ⟨fun a ha => (h.kept a ha).idle he, h.fresh.skip he.1⟩

/-- **One request**, by any account: the world agrees with the history afterwards as it did before. -/
theorem agrees_perform {b : Account root} (hb : b.store.Vacant start) {n : Nat}
    (h : Agrees root start history (n + 1) w) {request : Request} (hfits : request.Fits) :
    ∃ outcome w', World.run (perform b.store request) w = (outcome, w') ∧
      Agrees root start (history ++ [⟨b.tenant, request, outcome⟩]) n w' := by
  have hkept := h.kept b hb
  cases request with
  | store value =>
    by_cases hsmall : value.print.length ≤ b.store.threshold
    · exact ⟨.stored (.ok none), w, Program.run_bind_of_eq (run_store_small hsmall),
        h.idle (Entry.idle_small ..)⟩
    · obtain ⟨id, d', hdraw, hid, hunused, hrun, hstored⟩ :=
        hkept.run_store_held hb h.fresh (Nat.not_le.mp hsmall)
      refine ⟨.stored (.ok (some (Record.reference id value.print))), _,
        Program.run_bind_of_eq hrun, fun a ha => ?_, ?_⟩
      -- an account keeps its files also when another one stores
      · exact (h.kept a ha).storing ha hb hid hstored rfl (intact_stored id hfits)
          (hunused b.tenant)
      · exact h.fresh.draw hdraw
  | load id =>
    have hrun : World.run (b.store.load id) w = ((World.run (b.store.load id) w).1, w) :=
      Prod.ext rfl (run_load_world b.store id w)
    exact ⟨_, w, Program.run_bind_of_eq hrun, h.idle (Entry.idle_loaded ..)⟩
  | loadFrom value =>
    have hrun : World.run (b.store.loadFrom value) w =
        ((World.run (b.store.loadFrom value) w).1, w) :=
      Prod.ext rfl (run_loadFrom_world b.store value w)
    exact ⟨_, w, Program.run_bind_of_eq hrun, h.idle (Entry.idle_loaded ..)⟩
  | delete id =>
    by_cases hheld : ∃ record, Held history b.tenant id record
    · obtain ⟨record, hheld⟩ := hheld
      refine ⟨.deleted (.ok ()), _, Program.run_bind_of_eq (hkept.run_delete_held hb hheld),
        fun a ha => ?_, ?_⟩
      · exact (h.kept a ha).deleting hb (hkept.file id record hheld).1
      · refine h.fresh.skip fun _ _ _ heq => ?_
        cases heq
    -- a failed deletion leaves the disk and the history as they are
    · have hnone : ∀ record, ¬ Held history b.tenant id record :=
        fun record hrecord => hheld ⟨record, hrecord⟩
      exact ⟨.deleted (.error (absence id)), w,
        Program.run_bind_of_eq (hkept.run_delete_absent hb hnone),
        h.idle (Entry.idle_missing ..)⟩

end

/-! ## Any number of requests -/

section

variable {root : String}

/-- **A run.** Induction on the requests, of which each may need a fresh id. -/
theorem agrees_conduct {start : Disk} (calls : List (Account root × Request)) {n : Nat}
    (hvacant : ∀ call ∈ calls, call.1.store.Vacant start) (hfits : ∀ call ∈ calls, call.2.Fits) :
    ∀ history w, Agrees root start history (calls.length + n) w →
      Agrees root start (history ++ (World.run (conduct calls) w).1) n
        (World.run (conduct calls) w).2 := by
  induction calls with
  | nil =>
    intro history w h
    rw [List.length_nil, Nat.zero_add] at h
    have hrun : World.run (conduct ([] : List (Account root × Request))) w = ([], w) := rfl
    rw [hrun, List.append_nil]
    exact h
  | cons call rest ih =>
    obtain ⟨b, request⟩ := call
    -- the first request uses up one draw, the others what is left
    intro history w h
    rw [List.length_cons, Nat.succ_add] at h
    obtain ⟨outcome, w₁, hrun, h₁⟩ :=
      agrees_perform (hvacant _ (List.mem_cons_self ..)) h (hfits _ (List.mem_cons_self ..))
    have hrest := ih (fun call hcall => hvacant call (List.mem_cons_of_mem _ hcall))
      (fun call hcall => hfits call (List.mem_cons_of_mem _ hcall))
      (history ++ [⟨b.tenant, request, outcome⟩]) w₁ h₁
    have hall : World.run (conduct ((b, request) :: rest)) w =
        (⟨b.tenant, request, outcome⟩ :: (World.run (conduct rest) w₁).1,
          (World.run (conduct rest) w₁).2) := by
      rw [conduct, World.run, Program.run_bind_of_eq hrun, Program.run_bind]
      rfl
    rw [hall, List.append_cons]
    exact hrest

/-- The answers of an account in a world are those of a map that holds what a history says. -/
structure Answers (history : List Entry) (a : Account root) (w : World) : Prop where
  load : ∀ id record, World.run (a.store.load id) w = (.ok record, w) ↔
    Held history a.tenant id record
  loadNone : ∀ id, (∀ record, ¬ Held history a.tenant id record) →
    World.run (a.store.load id) w = (.error (absence id), w)
  loadFrom : ∀ value, World.run (a.store.loadFrom value) w =
    match (value.get? "id").bind Json.toText? with
    | some id => World.run (a.store.load id) w
    | none => (.error (.invalidReference .recordWithoutId), w)
  delete : ∀ id, (World.run (a.store.delete id) w).1 = .ok () ↔
    ∃ record, Held history a.tenant id record
  deleteNone : ∀ id, (∀ record, ¬ Held history a.tenant id record) →
    World.run (a.store.delete id) w = (.error (absence id), w)
  deleteOnly : ∀ id, (∃ record, Held history a.tenant id record) → ∀ place,
    (World.run (a.store.delete id) w).2.disk.node? place =
      if place = w.disk.home a.store.dir ++ [fileName id] then none else w.disk.node? place
  storeNone : ∀ value, World.run (a.store.store value value.print) w = (.ok none, w) ↔
    value.print.length ≤ a.store.threshold
  storeSome : ∀ value, a.store.threshold < value.print.length →
    ∃ id, ZBase32.isId id = true ∧ (∀ tenant record, ¬ Held history tenant id record) ∧
      (World.run (a.store.store value value.print) w).1 =
        .ok (some (Record.reference id value.print))

theorem Agrees.answers {start : Disk} {history : List Entry} {a : Account root} {w : World}
    {n : Nat} (hagrees : Agrees root start history (n + 1) w) (ha : a.store.Vacant start) :
    Answers history a w := by
  have hkept := hagrees.kept a ha
  refine ⟨fun id record => ⟨fun h => ?_, hkept.run_load_held ha⟩, fun id => hkept.run_load_absent ha,
    fun value => run_loadFrom a.store value w, fun id => ⟨fun h => ?_, ?_⟩,
    fun id => hkept.run_delete_absent ha, ?_, fun value => ⟨fun h => ?_, run_store_small⟩,
    fun value hlarge => ?_⟩
  -- a record is held or not, and both cases are known
  · by_cases hheld : ∃ record, Held history a.tenant id record
    · obtain ⟨other, hother⟩ := hheld
      rw [hkept.run_load_held ha hother] at h
      cases h
      exact hother
    · rw [hkept.run_load_absent ha fun record hrecord => hheld ⟨record, hrecord⟩] at h
      cases h
  · by_contra hheld
    rw [hkept.run_delete_absent ha fun record hrecord => hheld ⟨record, hrecord⟩] at h
    cases h
  · rintro ⟨record, hheld⟩
    rw [hkept.run_delete_held ha hheld]
  · rintro id ⟨record, hheld⟩ place
    rw [hkept.run_delete_held ha hheld]
    exact Disk.node?_erase w.disk (List.append_ne_nil_of_right_ne_nil _ (by simp)) place
  -- a value over the threshold is stored, so its record would have been answered
  · by_contra hlarge
    obtain ⟨id, d', -, -, -, hrun, -⟩ := hkept.run_store_held ha hagrees.fresh (Nat.not_le.mp hlarge)
    rw [hrun] at h
    cases h
  · obtain ⟨id, d', -, hid, hunused, hrun, -⟩ := hkept.run_store_held ha hagrees.fresh hlarge
    exact ⟨id, hid, hunused, by rw [hrun]⟩

/-- **The stores below a root are one map.** On a disk on which none of the stores finds anything, and
with record ids that do not come twice, any requests to any stores may have been made: after that,
every store answers as the history says. -/
theorem conduct_answers (calls : List (Account root × Request)) (a : Account root) (w : World)
    (hvacant : a.store.Vacant w.disk ∧ ∀ call ∈ calls, call.1.store.Vacant w.disk)
    (hfits : ∀ call ∈ calls, call.2.Fits)
    (hdraws : ∀ draw ∈ w.dice.draws (calls.length + 1), draw.length = 16)
    (hids : (w.dice.recordIds (calls.length + 1)).Nodup) :
    Answers (World.run (conduct calls) w).1 a (World.run (conduct calls) w).2 := by
  obtain ⟨ha, hcalls⟩ := hvacant
  have hstart : Agrees root w.disk [] (calls.length + 1) w :=
    ⟨fun _ => kept_nil, hdraws, hids, fun _ _ _ _ => not_held_nil⟩
  exact (agrees_conduct calls hcalls hfits [] w hstart).answers ha

end

/-- An account with a store that moves everything above one byte. -/
def Account.smallest (root tenant : String) (h : Tenant.isValid tenant = true) : Account root where
  tenant := tenant
  store := ⟨Path.join root tenant, 1, ⟨10⟩⟩
  made := ⟨1, ⟨10⟩, by rw [make, Tenant.check, if_pos h]; rfl⟩

/-- Two tenants below one root. -/
def ann : Account "records" := .smallest "records" "ann" (by decide)

def ben : Account "records" := .smallest "records" "ben" (by decide)

theorem bare_blank : Bare "records" Local.blank.disk := by
  have hhome : Local.blank.disk.home "records" = ["records"] := by decide +kernel
  have htrail : Local.blank.disk.trailOf "records" = [["records"]] := by decide +kernel
  refine ⟨Disk.createDirs_iff.mp ⟨⟨[(["records"], .directory)], []⟩, by decide +kernel⟩,
    fun names hnames => ?_⟩
  rw [hhome, htrail]
  exact ⟨by simp [hnames], rfl⟩

theorem vacant_ann : ann.store.Vacant Local.blank.disk :=
  ann.vacant bare_blank (by decide) (by decide) (by decide) (by decide)

theorem vacant_ben : ben.store.Vacant Local.blank.disk :=
  ben.vacant bare_blank (by decide) (by decide) (by decide) (by decide)

/-- What one tenant has stored can be loaded by that tenant, and not by another one. -/
theorem conduct_answers_tenants :
    ∃ id w', World.run (conduct [(ann, .store (.bool true))]) Local.blank =
        ([Entry.storing "ann" (.bool true) (Record.reference id (Json.bool true).print)], w') ∧
      World.run (ann.store.load id) w' =
        (.ok { Record.reference id (Json.bool true).print with data := some (.bool true) }, w') ∧
      World.run (ben.store.load id) w' = (.error (.notFound id), w') := by
  have hdraws : ∀ draw ∈ Local.blank.dice.draws 2, draw.length = 16 := by decide
  have hids : (Local.blank.dice.recordIds 2).Nodup := by decide +kernel
  -- what the store answers to the first request
  have hfirst : Answers [] ann Local.blank := conduct_answers [] ann Local.blank
    ⟨vacant_ann, fun _ h => absurd h List.not_mem_nil⟩ (fun _ h => absurd h List.not_mem_nil)
    (fun draw hdraw => hdraws draw ((draws_succ 1 _).subset hdraw))
    (((draws_succ 1 _).map _).sublist.nodup hids)
  obtain ⟨id, hid, -, hstore⟩ := hfirst.storeSome (.bool true) (by decide)
  set w' := (World.run (ann.store.store (.bool true) (Json.bool true).print) Local.blank).2
  have hperform : World.run (perform ann.store (.store (.bool true))) Local.blank =
      (.stored (.ok (some (Record.reference id (Json.bool true).print))), w') :=
    Program.run_bind_of_eq (Prod.ext hstore rfl)
  have hrun : World.run (conduct [(ann, .store (.bool true))]) Local.blank =
      ([Entry.storing "ann" (.bool true) (Record.reference id (Json.bool true).print)], w') := by
    rw [conduct, World.run, Program.run_bind_of_eq hperform]
    rfl
  have hfits : ∀ call ∈ [(ann, Request.store (.bool true))], call.2.Fits := by
    rw [List.forall_mem_singleton]
    exact ⟨by simp, .bool true, .bool _ true, by decide⟩
  have hcalls : ∀ call ∈ [(ann, Request.store (.bool true))],
      call.1.store.Vacant Local.blank.disk := by
    rw [List.forall_mem_singleton]
    exact vacant_ann
  -- and what both tenants are answered after it
  have hann := conduct_answers _ ann Local.blank ⟨vacant_ann, hcalls⟩ hfits hdraws hids
  have hben := conduct_answers _ ben Local.blank ⟨vacant_ben, hcalls⟩ hfits hdraws hids
  rw [hrun] at hann hben
  refine ⟨id, w', hrun, (hann.load id _).mpr (held_singleton.mpr ⟨rfl, rfl, rfl⟩), ?_⟩
  have habsence : absence id = .notFound id := if_pos hid
  rw [← habsence]
  refine hben.loadNone id fun record hheld => ?_
  exact absurd (held_singleton.mp hheld).1 (by decide)

end Stowage.RecordStore
