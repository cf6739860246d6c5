import Stowage.Proofs.Backend.Contract
import Stowage.Proofs.Backend.Resolvable
/-!
# Stowage — what the two backends decide

A gate decides what is moved out of a message, but each backend has its say: it may decline a candidate,
it compares sizes with a threshold once more, and its references have a form of their own. None of it
makes a difference for a message that is JSON. `StandsFor` is what a backend has to recognize in place of
what it took, `SameDecision` that two backends have replaced the same parts of a message and left the
same parts alone, and `offload_decisions` that the remote and the local one always do.
-/

namespace Stowage

open Chunk

/-! ## The same decision

Which parts of a message are replaced does not depend on where they go. `SameDecision` relates a message
to two results of offloading it: in each the same parts are left as they are, and in the place of each
other part stands something that is recognized with the size of that part. -/

/-- A value stands for something of a size: it is recognized as a reference to it, also after it was
written and read. -/
structure StandsFor (recognize : Json → Except Failure (Option Reference)) (size : Nat)
    (value : Json) : Prop where
  recognized : ∃ r, recognize value = .ok (some r) ∧ r.totalSize = size
  readBack : Json.read? value.print = some value

/-- Fields with those over a threshold replaced, each under its key. -/
def Json.Members.replacing (threshold : Nat) (reference : String × Json → Json)
    (fields : Json.Members) : Json.Members :=
  fields.map fun field =>
    (field.1, if threshold < field.2.print.length then reference field else field.2)

/-- `SameDecision threshold recognize recognize' message out out'`: one message was turned into two, with the
same parts replaced by references. A message that is no object stays or goes as a whole. Of an object the
fields over the threshold go, and where there is none the message stays as it is. -/
inductive SameDecision (threshold : Nat) (recognize recognize' : Json → Except Failure (Option Reference))
    (message : Bytes) : Bytes → Bytes → Prop where
  | small (hother : ∀ fields, Json.read? message ≠ some (.object fields))
      (hsize : message.length ≤ threshold) :
      SameDecision threshold recognize recognize' message message message
  | smallFields {fields : Json.Members} (hread : Json.read? message = some (.object fields))
      (hsizes : ∀ field ∈ fields, field.2.print.length ≤ threshold) :
      SameDecision threshold recognize recognize' message message message
  | whole (hother : ∀ fields, Json.read? message ≠ some (.object fields))
      (hsize : threshold < message.length) {reference reference' : Json}
      (h : StandsFor recognize message.length reference)
      (h' : StandsFor recognize' message.length reference') :
      SameDecision threshold recognize recognize' message reference.print reference'.print
  | fields {fields : Json.Members} (hread : Json.read? message = some (.object fields))
      (hsizes : ∃ field ∈ fields, threshold < field.2.print.length)
      {reference reference' : String × Json → Json}
      (h : ∀ field ∈ fields, threshold < field.2.print.length →
        StandsFor recognize field.2.print.length (reference field) ∧
          StandsFor recognize' field.2.print.length (reference' field)) :
      SameDecision threshold recognize recognize' message
        (Json.object (fields.replacing threshold reference)).print
        (Json.object (fields.replacing threshold reference')).print

/-- Replacing what a gate selects is replacing the fields over its threshold. -/
theorem Gate.replaced_eq_replacing (threshold : Nat) (reference : Candidate → Json)
    (fields : Json.Members) :
    (Gate.mk threshold).replaced reference fields =
      fields.replacing threshold fun field => reference (candidate field) := by
  refine List.map_congr_left fun field _ => ?_
  have hselects : (Gate.mk threshold).selects field = true ↔ threshold < field.2.print.length :=
    decide_eq_true_iff
  by_cases hsize : threshold < field.2.print.length
  · rw [if_pos (hselects.mpr hsize), if_pos hsize]
  · rw [if_neg (mt hselects.mp hsize), if_neg hsize]

/-- A message with all of its candidates replaced shows what its gate decided, whatever stands for them. -/
theorem sameDecision_rewritten {threshold : Nat}
    {recognize recognize' : Json → Except Failure (Option Reference)} {message : Bytes}
    {reference reference' : Candidate → Json}
    (h : ∀ c ∈ (Gate.mk threshold).candidates message,
      StandsFor recognize c.bytes.length (reference c) ∧
        StandsFor recognize' c.bytes.length (reference' c)) :
    SameDecision threshold recognize recognize' message
      ((Gate.mk threshold).rewritten reference message)
      ((Gate.mk threshold).rewritten reference' message) := by
  by_cases hobject : ∃ fields, Json.read? message = some (.object fields)
  · obtain ⟨fields, hread⟩ := hobject
    rw [(Gate.mk threshold).candidates_object hread] at h
    rw [Gate.rewritten, Gate.rewritten, hread]
    simp only
    -- with no field over the threshold the message stays as it is, in both backends
    by_cases hany : fields.any (Gate.mk threshold).selects
    · rw [if_pos hany, if_pos hany, Gate.replaced_eq_replacing, Gate.replaced_eq_replacing]
      obtain ⟨field, hfield, hselects⟩ := List.any_eq_true.mp hany
      exact .fields hread ⟨field, hfield, of_decide_eq_true hselects⟩ fun field hfield hsize =>
        h _ (Gate.candidate_mem hfield (decide_eq_true hsize))
    · rw [if_neg hany, if_neg hany]
      refine .smallFields hread fun field hfield => Nat.not_lt.mp fun hsize => hany ?_
      exact List.any_eq_true.mpr ⟨field, hfield, decide_eq_true hsize⟩
  -- a message that is no object has one candidate at most, the message itself
  · have hother : ∀ fields, Json.read? message ≠ some (.object fields) :=
      fun fields hread => hobject ⟨fields, hread⟩
    rw [(Gate.mk threshold).candidates_other hother] at h
    rw [Gate.rewritten_other _ _ hother, Gate.rewritten_other _ _ hother]
    by_cases hexceeds : (Gate.mk threshold).exceeds message.length
    · rw [if_pos hexceeds] at h
      rw [if_pos hexceeds, if_pos hexceeds]
      obtain ⟨hstands, hstands'⟩ := h _ (List.mem_singleton_self _)
      exact .whole hother (of_decide_eq_true hexceeds) hstands hstands'
    · rw [if_neg hexceeds, if_neg hexceeds]
      exact .small hother (Nat.not_lt.mp fun hsize => hexceeds (decide_eq_true hsize))

/-- Every candidate of a message that is JSON has a value. -/
theorem Gate.exists_value {gate : Gate} {message : Bytes} {value : Json}
    (hread : Json.read? message = some value) {c : Candidate} (hc : c ∈ gate.candidates message) :
    ∃ v, c.value = some v := by
  by_cases hobject : ∃ fields, value = .object fields
  · obtain ⟨fields, rfl⟩ := hobject
    rw [gate.candidates_object hread] at hc
    obtain ⟨field, -, rfl⟩ := List.mem_map.mp hc
    exact ⟨field.2, rfl⟩
  · have hother : ∀ fields, Json.read? message ≠ some (.object fields) := by
      rw [hread]
      rintro fields heq
      cases heq
      exact hobject ⟨fields, rfl⟩
    rw [gate.candidates_other hother] at hc
    split at hc
    · rw [List.mem_singleton.mp hc]
      exact ⟨value, hread⟩
    · exact absurd hc List.not_mem_nil

/-! ## The remote backend

A chunk host takes any bytes, so every candidate of the gate is replaced. The markers are those of the
round trip; what is new is that each is recognized with the size that its candidate was judged by. -/

/-- A marker stands for a candidate of its size. -/
theorem Remote.standsFor_markerOf {c : Candidate} {ref : String} {r : Reference}
    (hsize : c.bytes.length < Json.wordLimit) (h : recognize (markerOf c ref) = .ok (some r))
    (htotal : r.totalSize = c.bytes.length) :
    StandsFor recognize c.bytes.length (markerOf c ref) :=
  ⟨⟨r, h, htotal⟩, Json.read?_print ((Marker.nested_toJson _).mono (by decide))
    (Marker.isWhole_toJson hsize)⟩

/-! ## The local backend

A record file takes values only. A candidate of a message that is JSON has one, and a size over the
threshold that is applied again when it is stored, so that nothing is declined. -/

namespace Local

/-- Storing a value over the threshold fails or gives a record, in every world. -/
theorem store_ne_none {s : RecordStore} {bytes : Bytes} (hlarge : s.threshold < bytes.length)
    (value : Json) {σ : Type} (world : Answering σ) (start : σ) :
    ((s.store value bytes).run world start).1 ≠ .ok none := by
  rw [RecordStore.store, if_neg (Nat.not_le.mpr hlarge), Program.run_bind, Program.run_bind]
  intro hnone
  split at hnone
  · cases hnone
  · cases hnone

/-- **Nothing is declined twice.** A candidate with a value over the threshold is stored, or storing it
fails: the second look at its size does not turn it away. -/
theorem offload_ne_declined {s : RecordStore} {c : Candidate} {value : Json}
    (hvalue : c.value = some value) (hlarge : s.threshold < c.bytes.length) {σ : Type}
    (world : Answering σ) (start : σ) : ((offload s c).run world start).1 ≠ .ok none := by
  have hstore := store_ne_none hlarge value world start
  rw [offload, hvalue]
  simp only
  rw [Program.run_bind]
  generalize (s.store value c.bytes).run world start = stored at hstore ⊢
  obtain ⟨result, left⟩ := stored
  cases result with
  | error failure =>
    intro hnone
    cases hnone
  | ok stored =>
    cases stored with
    | none => exact absurd rfl hstore
    | some record =>
      intro hnone
      cases hnone

/-- Candidates with values are taken one after the other as long as there is room. -/
theorem offloads_room (s : RecordStore) (here : Disk.Place) :
    Message.Offloads (backend s) World.answer copyOf (fun _ id _ => ZBase32.isId id = true)
      fun candidates w =>
        (∀ c ∈ candidates, (∃ value, c.value = some value) ∧ s.threshold < c.bytes.length) ∧
          Room s here candidates.length w := by
  intro c rest w ⟨hcandidates, hroom⟩
  obtain ⟨⟨value, hvalue⟩, hlarge⟩ := hcandidates c (List.mem_cons_self ..)
  obtain ⟨id, d, w', hrun, hisId, hroom', -⟩ := run_offload_room hvalue hlarge hroom
  exact ⟨id, w', hrun, ⟨fun e he => hcandidates e (List.mem_cons_of_mem _ he), hroom'⟩, hisId,
    fun _ _ hid => hid⟩

/-- A copy of a record stands for a candidate of its size. -/
theorem standsFor_copyOf {c : Candidate} {id : String} (hid : ZBase32.isId id = true)
    (hsize : c.bytes.length < Json.wordLimit) :
    StandsFor recognize c.bytes.length (copyOf c id) := by
  have hne : id ≠ "" := by
    rintro rfl
    exact absurd hid (by decide)
  exact ⟨⟨_, recognize_reference hne hsize, rfl⟩,
    Json.read?_print ((Record.nested_reference _ _).mono (by decide))
      (Record.isWhole_reference _ hsize)⟩

/-- **Offloading** a message that is JSON puts the copy of a record in the place of every candidate. -/
theorem run_offload_undisturbed {s : RecordStore} {message : Bytes} {value : Json} {w : World}
    (hread : Json.read? message = some value)
    (hcalm : Undisturbed s ((Gate.mk s.threshold).candidates message) w) :
    ∃ (idOf : String → String) (w' : World),
      World.run (Message.offload (backend s) message) w =
          (.ok ((Gate.mk s.threshold).rewritten (fun c => copyOf c (idOf c.fieldPath)) message), w') ∧
        ∀ c ∈ (Gate.mk s.threshold).candidates message,
          StandsFor recognize c.bytes.length (copyOf c (idOf c.fieldPath)) := by
  obtain ⟨here, hroom⟩ := hcalm.room
  obtain ⟨idOf, w', hoffload, -, hids⟩ := Message.run_offload (offloads_room s here)
    ⟨fun c hc => ⟨Gate.exists_value hread hc, Gate.lt_of_mem_candidates hc⟩, hroom⟩
  exact ⟨idOf, w', hoffload, fun c hc => standsFor_copyOf (hids c hc) (hcalm.inRange c hc)⟩

end Local

/-! ## Both backends -/

/-- **The backends decide alike.** A message that is JSON is offloaded by both with success, and the same
parts of it are replaced by references that each recognizes: none, or all of it, or of an object the
fields over the threshold, under their keys and in their places. And in no world whatever does the local
backend decline what the gate selected. -/
theorem offload_decisions (t : Transfer) (s : RecordStore) {message : Bytes} {value : Json}
    (hread : Json.read? message = some value) {w w' : World}
    (hremote : Remote.Undisturbed t t ((Gate.mk s.threshold).candidates message) w)
    (hlocal : Local.Undisturbed s ((Gate.mk s.threshold).candidates message) w') :
    (∃ out out' left left',
      World.run (Message.offload (Remote.backend t s.threshold) message) w = (.ok out, left) ∧
      World.run (Message.offload (Local.backend s) message) w' = (.ok out', left') ∧
      SameDecision s.threshold (Remote.backend t s.threshold).recognize (Local.backend s).recognize
        message out out') ∧
    ∀ c ∈ (Gate.mk s.threshold).candidates message, ∀ {σ : Type} (world : Answering σ) (start : σ),
      (((Local.backend s).offload c).run world start).1 ≠ .ok none := by
  constructor
  · obtain ⟨refOf, left, hoffload, -, hmarkers⟩ := Remote.run_offload_undisturbed hremote
    obtain ⟨idOf, left', hoffload', hcopies⟩ := Local.run_offload_undisturbed hread hlocal
    refine ⟨_, _, left, left', hoffload, hoffload', sameDecision_rewritten fun c hc => ⟨?_, ?_⟩⟩
    · obtain ⟨hsize, hrecognize, -⟩ := hmarkers c hc
      exact Remote.standsFor_markerOf hsize hrecognize rfl
    · exact hcopies c hc
  -- a candidate of JSON has a value, and a size that the record store tests once more
  · intro c hc σ world start
    obtain ⟨v, hv⟩ := Gate.exists_value hread hc
    exact Local.offload_ne_declined hv (Gate.lt_of_mem_candidates hc) world start

/-- An object with an empty array, which is two bytes, and a number of one byte. -/
def mixed : Json.Members := [("a", .array []), ("n", .number (.int 7))]

theorem read?_mixed : Json.read? (Json.object mixed).print = some (.object mixed) := by
  refine Json.read?_print (.object _ _ (by decide) fun m hm => ?_) (.object _ fun m hm => ?_)
  · simp only [mixed, List.mem_cons, List.not_mem_nil, or_false] at hm
    rcases hm with rfl | rfl
    · exact .array _ _ nofun
    · exact .number _ _
  · simp only [mixed, List.mem_cons, List.not_mem_nil, or_false] at hm
    rcases hm with rfl | rfl
    · exact .array _ nofun
    · exact .number _ (.int 7 (by decide) (by decide))

/-- Above one byte both backends take the array, and leave the number. -/
theorem offload_decisions_mixed :
    ∃ marker copy left left',
      World.run (Message.offload (Remote.backend (.make 3 ⟨10⟩) 1) (Json.object mixed).print)
          (Remote.unused 100) =
        (.ok (Json.object [("a", marker), ("n", .number (.int 7))]).print, left) ∧
      World.run (Message.offload (Local.backend Local.smallest) (Json.object mixed).print) Local.blank =
        (.ok (Json.object [("a", copy), ("n", .number (.int 7))]).print, left') ∧
      StandsFor Remote.recognize 2 marker ∧ StandsFor Local.recognize 2 copy := by
  have hcandidates : (Gate.mk Local.smallest.threshold).candidates (Json.object mixed).print =
      [Gate.candidate ("a", .array [])] := by
    rw [Gate.candidates_object _ read?_mixed, mixed, List.filter_cons_of_pos (by decide),
      List.filter_cons_of_neg (by decide), List.filter_nil]
    rfl
  have hremote : Remote.Undisturbed (.make 3 ⟨10⟩) (.make 3 ⟨10⟩)
      ((Gate.mk Local.smallest.threshold).candidates (Json.object mixed).print)
      (Remote.unused 100) := by
    rw [hcandidates]
    exact Remote.undisturbed_unused _ _ (by decide) (by decide)
  have hlocal : Local.Undisturbed Local.smallest
      ((Gate.mk Local.smallest.threshold).candidates (Json.object mixed).print) Local.blank := by
    rw [hcandidates]
    exact Local.undisturbed_blank (by decide)
  obtain ⟨⟨out, out', left, left', hoffload, hoffload', hsame⟩, -⟩ :=
    offload_decisions (.make 3 ⟨10⟩) Local.smallest read?_mixed hremote hlocal
  have hlarge : Local.smallest.threshold < (Json.array []).print.length := by decide
  have hsmall : ¬ Local.smallest.threshold < (Json.number (.int 7)).print.length := by decide
  -- the relation says which fields were replaced; only the case of fields fits this message
  cases hsame with
  | small hother => exact absurd read?_mixed (hother mixed)
  | smallFields hread hsizes =>
    rw [read?_mixed] at hread
    cases hread
    exact absurd hlarge (Nat.not_lt.mpr (hsizes ("a", .array []) (List.mem_cons_self ..)))
  | whole hother => exact absurd read?_mixed (hother mixed)
  | fields hread _ hstands =>
    rw [read?_mixed] at hread
    cases hread
    obtain ⟨hmarker, hcopy⟩ := hstands ("a", .array []) (List.mem_cons_self ..) hlarge
    simp only [mixed, Json.Members.replacing, List.map_cons, List.map_nil, if_pos hlarge,
      if_neg hsmall] at hoffload hoffload'
    exact ⟨_, _, left, left', hoffload, hoffload', hmarker, hcopy⟩

end Stowage
