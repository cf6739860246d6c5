import Mathlib.Logic.Function.Basic
import Mathlib.Logic.Relation
import Stowage.Proofs.Chunk.Fetch
/-!
# Stowage — readers beside writers

Any number of producers store payloads under references of their own, and any number of readers fetch
them, on one chunk store that is empty at first. Single calls interleave in any order (`Traffic.Step`).

* `Uploading` — what is known of a producer between two of its calls: a prefix has arrived, and the
  other windows are still to be stored;
* `OnCourse` — what is known of a reader: it has received a prefix, and unless that is empty, all of
  the payload is in the store; `TooEarly` is a reader that asked before that;
* `Traffic.Sound` — both of these for everybody, preserved by every step (`Sound.step`).

An entry does not change any more once it is whole (`Sound.find?_step`), since only its own producer
writes to it and has finished by then. `Traffic.readers_see_all_or_nothing` is what follows.
-/

namespace Stowage.Chunk

/-! ## Programs that wait for the store

A program that has made some calls, and what is left of it. It goes on when the store answers its next
call, at any later moment. -/

/-- A program under way, and how many of its calls were answered. -/
structure Progress (α : Type) where
  calls : Nat
  rest : Program α

/-- `p.Advances s p' s'`: the next call of a program is answered by the store, however long it takes. -/
inductive Progress.Advances {α : Type} : Progress α → Store → Progress α → Store → Prop where
  | store (n : Nat) (r : StoreRequest) (patience spent : Nat)
      (next : (Call.store r patience).Reply → Program α) (s : Store) :
      Advances ⟨n, .call (.store r patience) next⟩ s
        ⟨n + 1, next (some (spent, (s.answerStore r).1))⟩ (s.answerStore r).2
  | get (n : Nat) (r : GetRequest) (patience spent : Nat)
      (next : (Call.get r patience).Reply → Program α) (s : Store) :
      Advances ⟨n, .call (.get r patience) next⟩ s ⟨n + 1, next (some (spent, s.get r))⟩ s

/-- A program that has made fewer calls than a number, and can make the next one. -/
def Progress.GoesOn {α : Type} (p : Progress α) (s : Store) (calls : Nat) : Prop :=
  p.calls < calls ∧ ∃ p' s', p.Advances s p' s'

theorem Progress.not_advances_done {α : Type} {p p' : Progress α} {a : α} {s s' : Store}
    (hdone : p.rest = .done a) : ¬ p.Advances s p' s' := by
  obtain ⟨calls, program⟩ := p
  simp only at hdone
  subst hdone
  nofun

/-! ## A producer

Its windows are stored in order, so what is there is a prefix of the payload at every moment, and what
is left of its program is what stores the rest. -/

/-- A prefix of the payload has arrived, and the windows of the rest are to be stored. -/
def Uploading (t : Transfer) (ref : String) (data : Bytes) (entry : Option Payload)
    (p : Progress (Except Failure Unit)) : Prop :=
  ∃ stored rest windows patience, data = stored ++ rest ∧
    Transfer.Tiles t.chunkSize stored.length rest windows ∧ Holds entry data.length stored ∧
    p.calls + windows.length = t.calls data.length ∧
    p.rest = t.storeAll (windows.map (Transfer.request ref data.length)) patience

namespace Uploading

variable {t : Transfer} {ref : String} {data : Bytes} {p p' : Progress (Except Failure Unit)}

theorem start (t : Transfer) (ref : String) (data : Bytes) :
    Uploading t ref data none ⟨0, t.store ref data⟩ := by
  have htiles := Transfer.tiles_windows t.one_le_chunkSize data
  refine ⟨[], data, _, t.deadline.nanoseconds, rfl, htiles, .inl ⟨rfl, rfl⟩, ?_, rfl⟩
  rw [Nat.zero_add]
  exact htiles.length_windows t.one_le_chunkSize

theorem cases {entry : Option Payload} (h : Uploading t ref data entry p) (s : Store) :
    (p.rest = .done (.ok ()) ∧ p.calls = t.calls data.length ∧ Holds entry data.length data) ∨
      p.GoesOn s (t.calls data.length) := by
  obtain ⟨stored, rest, windows, patience, hdata, htiles, hholds, hcalls, hrest⟩ := h
  obtain ⟨calls, program⟩ := p
  cases htiles with
  | nil =>
    rw [List.append_nil] at hdata
    exact .inl ⟨hrest, hcalls, hdata ▸ hholds⟩
  | cons _ chunk rest windows hne hle hfull htiles =>
    simp only [List.length_cons] at hcalls
    refine .inr ⟨show calls < _ by omega, ?_⟩
    simp only at hrest
    subst hrest
    exact ⟨_, _, .store calls _ patience 0 _ s⟩

/-- The next window is accepted, and no other entry changes. Where there is a next window, something was
missing. -/
theorem advances {s s' : Store} (h : Uploading t ref data (s.find? ref) p)
    (hadvances : p.Advances s p' s') (hmaximum : data.length ≤ s.maximum)
    (hlimit : data.length < offsetLimit) :
    Uploading t ref data (s'.find? ref) p' ∧ s'.maximum = s.maximum ∧
      (∀ other, other ≠ ref → s'.find? other = s.find? other) ∧
      ¬ Holds (s.find? ref) data.length data := by
  obtain ⟨stored, rest, windows, patience, hdata, htiles, hholds, hcalls, hrest⟩ := h
  obtain ⟨calls, program⟩ := p
  simp only at hrest hcalls
  subst hrest
  -- what is left of the upload is its windows; the next one is the call that was made
  cases htiles with
  | nil => exact absurd hadvances (Progress.not_advances_done rfl)
  | cons _ chunk rest windows hne hle hfull htiles =>
    have hchunk : 0 < chunk.length := List.length_pos_iff.mpr hne
    have hanswer :=
      Store.answerStore_next ref hholds hmaximum hlimit (congrArg List.length hdata)
    rw [List.map_cons, Transfer.storeAll] at hadvances
    cases hadvances with
    | store _ _ _ spent _ _ =>
      rw [hanswer]
      refine ⟨⟨stored ++ chunk, rest, windows, patience - spent, ?_, ?_, ?_, ?_, rfl⟩,
        Store.maximum_put .., fun other hother => Store.find?_put_of_ne _ _ hother, fun hwhole => ?_⟩
      · rw [hdata, List.append_assoc]
      · rw [List.length_append]
        exact htiles
      · exact .inr (Store.find?_put_self ..)
      · rw [List.length_cons] at hcalls
        show calls + 1 + windows.length = _
        omega
      · -- what has arrived is shorter than the payload by the next window at least
        have hsame : data = stored := hwhole.bytes?.symm.trans hholds.bytes?
        have hlength := congrArg List.length hdata
        rw [← hsame, List.length_append, List.length_append] at hlength
        omega

end Uploading

/-! ## A reader

A reader that starts when all of the payload is there is never told otherwise. One that starts earlier
is refused by its first call, and gets no bytes of a part. -/

/-- A store gives nothing of a payload of which a proper prefix has arrived. -/
theorem Store.get_of_part {s : Store} {ref : String} {data stored rest : Bytes}
    (hdata : data = stored ++ rest) (hstored : Holds (s.find? ref) data.length stored)
    (hpart : ¬ Holds (s.find? ref) data.length data) (offset length : Nat) :
    s.get ⟨ref, offset, length⟩ = .error (.notFound ref) ∨
      ∃ why, s.get ⟨ref, offset, length⟩ = .error (.refused why) := by
  cases hfind : s.find? ref with
  | none => exact .inl (Store.get_of_none hfind offset length)
  | some payload =>
    have hbytes : payload.data = stored := by
      rw [hfind] at hstored
      exact hstored.bytes?
    have hincomplete : payload.data.length ≠ payload.total := by
      intro hcomplete
      rw [hbytes, hstored.total hfind, hdata, List.length_append] at hcomplete
      have hnil : rest = [] := List.eq_nil_of_length_eq_zero (by omega)
      rw [hnil, List.append_nil] at hdata
      exact hpart (hdata ▸ hstored)
    exact .inr ⟨_, Store.get_of_incomplete hfind hincomplete offset length⟩

/-- A reader that has all of the payload, or has received a prefix of it and goes on. Where the prefix is
not empty, all of the payload is there. -/
def OnCourse (t : Transfer) (ref : String) (data : Bytes) (entry : Option Payload)
    (p : Progress (Except Failure Bytes)) : Prop :=
  (p.rest = .done (.ok data) ∧ p.calls = t.calls data.length) ∨
    ∃ offset fuel patience, offset < data.length ∧ data.length ≤ fuel + offset ∧
      p.calls + t.calls (data.length - offset) = t.calls data.length ∧
      (offset = 0 ∨ Holds entry data.length data) ∧
      p.rest = t.fetchFrom ref data.length fuel (data.take offset) patience

/-- A reader that was told by its first call that there is nothing to read yet. -/
def TooEarly (ref : String) (p : Progress (Except Failure Bytes)) : Prop :=
  p.calls = 1 ∧ (p.rest = .done (.error (.notFound ref)) ∨
    ∃ why, p.rest = .done (.error (.transport 0 (.call (.refused why)))))

theorem TooEarly.exists_done {ref : String} {p : Progress (Except Failure Bytes)}
    (h : TooEarly ref p) : ∃ failure, p.rest = .done (.error failure) := by
  rcases h with ⟨-, hrest | ⟨why, hrest⟩⟩
  · exact ⟨_, hrest⟩
  · exact ⟨_, hrest⟩

namespace OnCourse

variable {t : Transfer} {ref : String} {data : Bytes} {entry : Option Payload}
  {p p' : Progress (Except Failure Bytes)}

theorem start (t : Transfer) (ref : String) (data : Bytes) :
    OnCourse t ref data none ⟨0, t.fetch ref data.length⟩ := by
  by_cases hempty : data = []
  · -- nothing to ask for: the reader has it all from the start
    subst hempty
    exact .inl ⟨rfl, t.calls_zero.symm⟩
  · exact .inr ⟨0, data.length, t.deadline.nanoseconds, List.length_pos_iff.mpr hempty,
      Nat.le_refl _, Nat.zero_add _, .inl rfl, rfl⟩

theorem of_entry {entry' : Option Payload} (h : OnCourse t ref data entry p)
    (hentry : Holds entry data.length data → entry' = entry) : OnCourse t ref data entry' p := by
  rcases h with hdone | ⟨offset, fuel, patience, hlt, hfuel, hcalls, hseen, hrest⟩
  · exact .inl hdone
  · refine .inr ⟨offset, fuel, patience, hlt, hfuel, hcalls, ?_, hrest⟩
    -- a reader that has received nothing does not mind what happens to the entry
    rcases hseen with hzero | hwhole
    · exact .inl hzero
    · exact .inr (hentry hwhole ▸ hwhole)

theorem cases (h : OnCourse t ref data entry p) (s : Store) :
    (p.rest = .done (.ok data) ∧ p.calls = t.calls data.length) ∨
      p.GoesOn s (t.calls data.length) := by
  rcases h with hdone | ⟨offset, fuel, patience, hlt, hfuel, hcalls, hseen, hrest⟩
  · exact .inl hdone
  · obtain ⟨calls, program⟩ := p
    obtain ⟨fuel, rfl⟩ : ∃ n, fuel = n + 1 := ⟨fuel - 1, by omega⟩
    obtain ⟨next, hcall, -⟩ := t.fetchFrom_take ref hlt fuel patience
    rw [t.calls_sub hlt] at hcalls
    simp only [hcall] at hrest hcalls
    subst hrest
    exact .inr ⟨show calls < _ by omega, _, _, .get calls _ patience 0 _ s⟩

/-- The next call of a reader leaves the store alone. It is answered with the next window if all of the
payload has arrived; otherwise it was the first, and the reader came too early. -/
theorem advances {s s' : Store} {stored rest : Bytes} (h : OnCourse t ref data (s.find? ref) p)
    (hadvances : p.Advances s p' s') (hdata : data = stored ++ rest)
    (hstored : Holds (s.find? ref) data.length stored) :
    s' = s ∧ (OnCourse t ref data (s.find? ref) p' ∨
      (¬ Holds (s.find? ref) data.length data ∧ TooEarly ref p')) := by
  rcases h with ⟨hrest, -⟩ | ⟨offset, fuel, patience, hlt, hfuel, hcalls, hseen, hrest⟩
  · exact absurd hadvances (Progress.not_advances_done hrest)
  · obtain ⟨calls, program⟩ := p
    obtain ⟨fuel, rfl⟩ : ∃ n, fuel = n + 1 := ⟨fuel - 1, by omega⟩
    obtain ⟨next, hcall, hnext, hfailed⟩ := t.fetchFrom_take ref hlt fuel patience
    have hone := t.one_le_chunkSize
    rw [t.calls_sub hlt] at hcalls
    simp only [hcall] at hrest hcalls
    subst hrest
    cases hadvances with
    | get _ _ _ spent _ _ =>
      refine ⟨rfl, ?_⟩
      by_cases hwhole : Holds (s.find? ref) data.length data
      · -- all of the payload is there, and the reader gets its next window
        have hne : data ≠ [] := List.length_pos_iff.mp (Nat.lt_of_le_of_lt (Nat.zero_le _) hlt)
        rw [Store.get_of_find? (hwhole.eq_some hne) (Nat.le_of_lt hlt), hnext]
        refine .inl ?_
        by_cases hlast : data.length ≤ offset + t.chunkSize
        · have hzero : data.length - (offset + t.chunkSize) = 0 := by omega
          rw [hzero, t.calls_zero] at hcalls
          rw [if_pos hlast]
          exact .inl ⟨rfl, hcalls⟩
        · rw [if_neg hlast]
          exact .inr ⟨offset + t.chunkSize, fuel, patience - spent, by omega, by omega,
            show calls + 1 + _ = _ by omega, .inr hwhole, rfl⟩
      · -- only a reader that has received nothing can be here
        have hzero : offset = 0 := hseen.resolve_right hwhole
        subst hzero
        have hfirst := t.calls_sub hlt
        rw [Nat.sub_zero] at hfirst
        refine .inr ⟨hwhole, show calls + 1 = 1 by omega, ?_⟩
        rcases Store.get_of_part hdata hstored hwhole 0 t.chunkSize with heq | ⟨why, heq⟩
        · rw [heq, hfailed]
          exact .inl rfl
        · rw [heq, hfailed]
          exact .inr ⟨_, rfl⟩

end OnCourse

/-! ## Everybody together

Each producer has a reference of its own, and readers choose what they read. The state of everybody at
one moment is sound if each is in step with the store. -/

/-- Producers and readers of one chunk store. Every producer has a reference of its own, and every reader
asks for the payload of one producer. -/
structure Traffic (ι κ : Type) where
  maximum : Nat
  ref : ι → String
  data : ι → Bytes
  upload : ι → Transfer
  source : κ → ι
  download : κ → Transfer
  maximum_lt : maximum < offsetLimit
  length_le : ∀ i, (data i).length ≤ maximum
  ref_injective : Function.Injective ref

namespace Traffic

variable {ι κ : Type}

/-- Where everybody is between two calls. -/
structure Moment (ι κ : Type) where
  store : Store
  uploads : ι → Progress (Except Failure Unit)
  downloads : κ → Progress (Except Failure Bytes)

def start (T : Traffic ι κ) : Moment ι κ where
  store := .empty T.maximum
  uploads i := ⟨0, (T.upload i).store (T.ref i) (T.data i)⟩
  downloads j :=
    ⟨0, (T.download j).fetch (T.ref (T.source j)) (T.data (T.source j)).length⟩

variable (T : Traffic ι κ) {m m' : Moment ι κ}

/-- All of a payload has arrived. -/
def Arrived (m : Moment ι κ) (i : ι) : Prop :=
  Holds (m.store.find? (T.ref i)) (T.data i).length (T.data i)

def OnCourseAt (m : Moment ι κ) (j : κ) : Prop :=
  OnCourse (T.download j) (T.ref (T.source j)) (T.data (T.source j))
    (m.store.find? (T.ref (T.source j))) (m.downloads j)

/-- **The invariant.** -/
structure Sound (m : Moment ι κ) : Prop where
  maximum : m.store.maximum = T.maximum
  uploads : ∀ i, Uploading (T.upload i) (T.ref i) (T.data i) (m.store.find? (T.ref i)) (m.uploads i)
  downloads : ∀ j, T.OnCourseAt m j ∨ TooEarly (T.ref (T.source j)) (m.downloads j)

theorem sound_start : T.Sound T.start where
  maximum := rfl
  uploads _ := .start ..
  downloads _ := .inl (.start ..)

variable {T}

namespace Sound

theorem upload_advances (h : T.Sound m) {i : ι} {p : Progress (Except Failure Unit)} {s : Store}
    (hadvances : (m.uploads i).Advances m.store p s) :
    Uploading (T.upload i) (T.ref i) (T.data i) (s.find? (T.ref i)) p ∧
      s.maximum = m.store.maximum ∧
      (∀ other, other ≠ T.ref i → s.find? other = m.store.find? other) ∧ ¬ T.Arrived m i := by
  have hmaximum : (T.data i).length ≤ m.store.maximum := by
    rw [h.maximum]
    exact T.length_le i
  exact (h.uploads i).advances hadvances hmaximum
    (Nat.lt_of_le_of_lt (T.length_le i) T.maximum_lt)

theorem exists_stored (h : T.Sound m) (i : ι) :
    ∃ stored rest, T.data i = stored ++ rest ∧
      Holds (m.store.find? (T.ref i)) (T.data i).length stored := by
  obtain ⟨stored, rest, -, -, hdata, -, hholds, -, -⟩ := h.uploads i
  exact ⟨stored, rest, hdata, hholds⟩

/-- A call of a reader leaves the store alone. It keeps the reader on course, unless the payload has not
arrived and the reader came too early. -/
theorem download_advances (h : T.Sound m) {j : κ} {p : Progress (Except Failure Bytes)} {s : Store}
    (hadvances : (m.downloads j).Advances m.store p s) :
    s = m.store ∧
      (OnCourse (T.download j) (T.ref (T.source j)) (T.data (T.source j))
          (m.store.find? (T.ref (T.source j))) p ∨
        (¬ T.Arrived m (T.source j) ∧ TooEarly (T.ref (T.source j)) p)) := by
  rcases h.downloads j with hcourse | hearly
  · obtain ⟨stored, rest, hdata, hstored⟩ := h.exists_stored (T.source j)
    exact hcourse.advances hadvances hdata hstored
  · obtain ⟨failure, hdone⟩ := hearly.exists_done
    exact absurd hadvances (Progress.not_advances_done hdone)

end Sound

/-! ## Steps

A step is one call of one program. It changes one entry at most, and only the reader or producer that
takes it. -/

variable [DecidableEq ι] [DecidableEq κ]

/-- One call of anybody is answered by the store. -/
inductive Step : Moment ι κ → Moment ι κ → Prop where
  | upload (m : Moment ι κ) (i : ι) (p : Progress (Except Failure Unit)) (s : Store)
      (h : (m.uploads i).Advances m.store p s) :
      Step m ⟨s, Function.update m.uploads i p, m.downloads⟩
  | download (m : Moment ι κ) (j : κ) (p : Progress (Except Failure Bytes)) (s : Store)
      (h : (m.downloads j).Advances m.store p s) :
      Step m ⟨s, m.uploads, Function.update m.downloads j p⟩

/-- Any number of steps. -/
abbrev Reaches : Moment ι κ → Moment ι κ → Prop := Relation.ReflTransGen Step

namespace Sound

/-- Once all of a payload has arrived, its entry does not change any more. -/
theorem find?_step (h : T.Sound m) (hstep : Step m m') {i : ι} (harrived : T.Arrived m i) :
    m'.store.find? (T.ref i) = m.store.find? (T.ref i) := by
  cases hstep with
  | upload i' p s hadvances =>
    obtain ⟨-, -, hothers, hpart⟩ := h.upload_advances hadvances
    refine hothers (T.ref i) fun heq => ?_
    -- its own producer has nothing left to store
    rw [T.ref_injective heq] at harrived
    exact hpart harrived
  | download j p s hadvances => rw [(h.download_advances hadvances).1]

/-- **One step.** -/
theorem step (h : T.Sound m) (hstep : Step m m') : T.Sound m' := by
  have hentry : ∀ i, T.Arrived m i → m'.store.find? (T.ref i) = m.store.find? (T.ref i) :=
    fun i => h.find?_step hstep
  cases hstep with
  | upload i p s hadvances =>
    obtain ⟨hupload, hmaximum, hothers, -⟩ := h.upload_advances hadvances
    refine ⟨hmaximum.trans h.maximum, ?_, fun j => ?_⟩
    · apply (Function.forall_update_iff m.uploads fun i =>
        Uploading (T.upload i) (T.ref i) (T.data i) (s.find? (T.ref i))).mpr
      refine ⟨hupload, fun i' hi => ?_⟩
      -- the other producers have other references
      rw [hothers _ fun heq => hi (T.ref_injective heq)]
      exact h.uploads i'
    · exact (h.downloads j).imp_left fun hcourse => hcourse.of_entry (hentry _)
  | download j p s hadvances =>
    obtain ⟨rfl, hdownload⟩ := h.download_advances hadvances
    refine ⟨h.maximum, h.uploads, ?_⟩
    apply (Function.forall_update_iff m.downloads fun j p =>
      OnCourse (T.download j) (T.ref (T.source j)) (T.data (T.source j))
          (m.store.find? (T.ref (T.source j))) p ∨ TooEarly (T.ref (T.source j)) p).mpr
    exact ⟨hdownload.imp_right And.right, fun j' _ => h.downloads j'⟩

/-- **A whole run.** -/
theorem reaches (h : T.Sound m) (hreaches : Reaches m m') : T.Sound m' := by
  induction hreaches with
  | refl => exact h
  | tail _ hstep ih => exact ih.step hstep

/-- Once all of a payload has arrived, no reader comes too early any more. -/
theorem onCourse_step (h : T.Sound m) (hstep : Step m m') {j : κ}
    (harrived : T.Arrived m (T.source j)) (hcourse : T.OnCourseAt m j) : T.OnCourseAt m' j := by
  have hentry := h.find?_step hstep harrived
  cases hstep with
  | upload i p s hadvances => exact hcourse.of_entry fun _ => hentry
  | download j' p s hadvances =>
    obtain ⟨rfl, hdownload⟩ := h.download_advances hadvances
    unfold OnCourseAt
    by_cases hj : j = j'
    · subst hj
      simp only [Function.update_self]
      exact hdownload.resolve_right fun hearly => hearly.1 harrived
    · simp only [Function.update_of_ne hj]
      exact hcourse

theorem onCourse_reaches (h : T.Sound m) (hreaches : Reaches m m') {j : κ}
    (harrived : T.Arrived m (T.source j)) (hcourse : T.OnCourseAt m j) :
    T.OnCourseAt m' j := by
  suffices hboth : T.Arrived m' (T.source j) ∧ T.OnCourseAt m' j from hboth.2
  induction hreaches with
  | refl => exact ⟨harrived, hcourse⟩
  | tail hbefore hstep ih =>
    obtain ⟨harrived', hcourse'⟩ := ih
    have hsound := h.reaches hbefore
    refine ⟨?_, hsound.onCourse_step hstep harrived' hcourse'⟩
    unfold Arrived
    rw [hsound.find?_step hstep harrived']
    exact harrived'

end Sound

/-! ## What everybody gets -/

/-- **Readers see all or nothing.** At every moment of every run: a producer has stored exactly its payload
and made as many calls as it has windows, or can go on; a reader has all of the payload, or a failure
that says that it is not there yet, or can go on. A reader that makes its first call after its producer
has finished gets all of the payload, in as many calls as it has windows. -/
theorem readers_see_all_or_nothing (T : Traffic ι κ) {m : Moment ι κ} (h : Reaches T.start m) :
    (∀ i, ((m.uploads i).rest = .done (.ok ()) ∧
          (m.uploads i).calls = (T.upload i).calls (T.data i).length ∧ T.Arrived m i) ∨
        (m.uploads i).GoesOn m.store ((T.upload i).calls (T.data i).length)) ∧
      (∀ j, (∃ result, (m.downloads j).rest = .done result ∧
            (result = .ok (T.data (T.source j)) ∨
              result = .error (.notFound (T.ref (T.source j))) ∨
              ∃ why, result = .error (.transport 0 (.call (.refused why))))) ∨
          (m.downloads j).GoesOn m.store
            ((T.download j).calls (T.data (T.source j)).length)) ∧
      ∀ j, (m.downloads j).calls = 0 →
        (∃ result, (m.uploads (T.source j)).rest = .done result) →
        ∀ m', Reaches m m' →
          ((m'.downloads j).rest = .done (.ok (T.data (T.source j))) ∧
            (m'.downloads j).calls = (T.download j).calls (T.data (T.source j)).length) ∨
          (m'.downloads j).GoesOn m'.store
            ((T.download j).calls (T.data (T.source j)).length) := by
  have hsound := T.sound_start.reaches h
  refine ⟨fun i => (hsound.uploads i).cases m.store, fun j => ?_, ?_⟩
  · rcases hsound.downloads j with hcourse | ⟨-, hearly | ⟨why, hearly⟩⟩
    · exact (hcourse.cases m.store).imp_left fun hdone => ⟨_, hdone.1, .inl rfl⟩
    · exact .inl ⟨_, hearly, .inr (.inl rfl)⟩
    · exact .inl ⟨_, hearly, .inr (.inr ⟨why, rfl⟩)⟩
  · rintro j hlate ⟨result, hfinished⟩ m' hreaches
    have harrived : T.Arrived m (T.source j) := by
      rcases (hsound.uploads (T.source j)).cases m.store with ⟨-, -, hwhole⟩ | ⟨-, p, s, hmore⟩
      · exact hwhole
      · exact absurd hmore (Progress.not_advances_done hfinished)
    have hcourse : T.OnCourseAt m j := by
      refine (hsound.downloads j).resolve_right fun hearly => ?_
      -- a reader that came too early has made a call
      rw [hearly.1] at hlate
      cases hlate
    exact (hsound.onCourse_reaches hreaches harrived hcourse).cases m'.store

/-- One producer of two bytes, and one reader with a chunk size of its own. -/
def single : Traffic Unit Unit where
  maximum := 4
  ref _ := "r"
  data _ := [1, 2]
  upload _ := .make 2 ⟨10⟩
  source _ := ()
  download _ := .make 1 ⟨10⟩
  maximum_lt := by decide
  length_le _ := by decide
  ref_injective _ _ _ := rfl

def singleUploaded : Moment Unit Unit where
  store := ⟨4, [("r", ⟨2, [1, 2]⟩)]⟩
  uploads := Function.update single.start.uploads () ⟨1, .done (.ok ())⟩
  downloads := single.start.downloads

theorem reaches_singleUploaded : Reaches single.start singleUploaded := by
  refine .single (.upload single.start () ⟨1, .done (.ok ())⟩ ⟨4, [("r", ⟨2, [1, 2]⟩)]⟩ ?_)
  exact .store 0 ⟨"r", [1, 2], 0, 2, true⟩ 10 3 _ (.empty 4)

/-- Whatever happens from then on, the reader gets both bytes with two calls, or is on the way there. -/
theorem readers_see_all_or_nothing_single :
    Reaches single.start singleUploaded ∧ ∀ m', Reaches singleUploaded m' →
      ((m'.downloads ()).rest = .done (.ok [1, 2]) ∧ (m'.downloads ()).calls = 2) ∨
        (m'.downloads ()).GoesOn m'.store 2 := by
  obtain ⟨-, -, hlate⟩ := readers_see_all_or_nothing single reaches_singleUploaded
  exact ⟨reaches_singleUploaded, hlate () rfl ⟨_, rfl⟩⟩

end Traffic

end Stowage.Chunk
