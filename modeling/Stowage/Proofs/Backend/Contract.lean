import Stowage.Proofs.Backend.Local
import Stowage.Proofs.Backend.Remote
import Stowage.Proofs.Json.Fields
/-!
# Stowage — what the two backends give back

A chunk host gives back the bytes that were stored. A record file holds a value, and what is given
back is the text of the value that is read from it (`Returned`): spellings are lost, binary64 numbers are
rounded once more, `null` counts for no data, and a value that already nests as deep as the reader goes
cannot be read from its record, where it stands one level deeper. `rehydrate_offload` says for every
candidate of the gate what a backend gives back, and when that is exactly its bytes;
`resolve_offload_array` says what that means for a message that is an array.
-/

namespace Stowage

namespace Gate

variable {gate : Gate} {message : Bytes} {c : Candidate} {value : Json}

/-- The value of a candidate is the message that was read, or stands in a field of it. -/
theorem value_of_mem_candidates (hc : c ∈ gate.candidates message) (hvalue : c.value = some value) :
    Json.read? message = some value ∨
      ∃ fields, Json.read? message = some (.object fields) ∧ ∃ field ∈ fields, field.2 = value := by
  by_cases hobject : ∃ fields, Json.read? message = some (.object fields)
  · obtain ⟨fields, hread⟩ := hobject
    rw [gate.candidates_object hread] at hc
    obtain ⟨field, hfield, rfl⟩ := List.mem_map.mp hc
    exact .inr ⟨fields, hread, field, (List.mem_filter.mp hfield).1, Option.some_inj.mp hvalue⟩
  · rw [gate.candidates_other fun fields h => hobject ⟨fields, h⟩] at hc
    split at hc
    · rw [List.mem_singleton] at hc
      subst hc
      exact .inl hvalue
    · cases hc

/-- Whatever value a candidate has, it nests no deeper than a message can. -/
theorem nested_of_mem_candidates (hc : c ∈ gate.candidates message) (hvalue : c.value = some value) :
    Json.Nested Json.maxDepth value := by
  rcases value_of_mem_candidates hc hvalue with hread | ⟨fields, hread, field, hfield, rfl⟩
  · exact Json.read?_nested hread
  · exact ((Json.field_nested hread).2 field hfield).mono (by decide)

/-- Its numbers were read, so they are those that a reader gives. -/
theorem readable_of_mem_candidates (hc : c ∈ gate.candidates message) (hvalue : c.value = some value) :
    Json.AllNumbers Json.Number.Readable value := by
  rcases value_of_mem_candidates hc hvalue with hread | ⟨fields, hread, field, hfield, rfl⟩
  · exact Json.read?_readable hread
  · exact (Json.read?_readable hread).member hfield

/-- A message over the threshold that is no object is a candidate as a whole. -/
theorem whole_mem_candidates (gate : Gate) (hother : ∀ fields, Json.read? message ≠ some (.object fields))
    (hlarge : gate.threshold < message.length) :
    (⟨"", message, Json.read? message⟩ : Candidate) ∈ gate.candidates message := by
  have hexceeds : gate.exceeds message.length = true := decide_eq_true hlarge
  rw [gate.candidates_other hother, if_pos hexceeds]
  exact List.mem_singleton_self _

end Gate

namespace RecordStore

variable {s : RecordStore} {id : String} {content : Bytes} {w : World}

/-- A file that is no record is reported with the place where its reader stopped. -/
theorem run_load_fault {fault : Json.Fault} (hid : ZBase32.isId id = true)
    (hread : w.disk.read (Path.join s.dir (fileName id)) = some (.ok content))
    (hrecord : Record.read content = .error fault) :
    World.run (s.load id) w = (.error (.encoding fault), w) := by
  rw [run_load_of_isId hid, hread, made, decode, hrecord]

end RecordStore

namespace Local

/-! ## One candidate in its record file

A candidate over the threshold is written whatever its text is. What comes back is decided later, when
the file is read: the value stands in a member of the record, one level deeper than in the message, and
its numbers are read from the text that was printed for them. -/

/-- The record file of a value under an id. -/
structure Kept (s : RecordStore) (id : String) (bytes : Bytes) (value : Json) (w : World) : Prop where
  isId : ZBase32.isId id = true
  inRange : bytes.length < Json.wordLimit
  content : w.disk.read (Path.join s.dir (RecordStore.fileName id)) =
    some (.ok (Record.stored id bytes value).toJson.print)

variable {s : RecordStore} {c : Candidate} {value : Json} {w : World}

/-- A candidate with a value over the threshold is moved into a record file, whatever its text is. -/
theorem run_offload (hvalue : c.value = some value) (hlarge : s.threshold < c.bytes.length)
    (hcalm : Undisturbed s [c] w) :
    ∃ id w', World.run (offload s c) w = (.ok (some (copyOf c id)), w') ∧
      Kept s id c.bytes value w' := by
  obtain ⟨here, hroom⟩ := hcalm.room
  obtain ⟨id, d, w', hrun, hisId, -, -, hfree, hdisk⟩ := run_offload_room hvalue hlarge hroom
  set content := (Record.stored id c.bytes value).toJson.print
  have hnode : w'.disk.node? (here ++ [RecordStore.fileName id]) = some (.file content) := by
    rw [hdisk]
    exact (hfree.node?_written content _).trans (if_pos rfl)
  have hlocated : w'.disk.locate (Path.join s.dir (RecordStore.fileName id)) =
      .ok ⟨here ++ [RecordStore.fileName id], false⟩ := by
    rw [hdisk]
    exact Disk.locate_mono (hfree.keepsDirectories_written content) hfree.file
  exact ⟨id, w', hrun, hisId, hcalm.inRange c (List.mem_singleton_self _),
    Disk.read_file hlocated hnode⟩

/-- `Returned id value result`: what loading the record of a value under an id ends with. The text that
comes back is that of the value which the text of the stored one is read as, and this differs from the
stored one at most in its binary64 numbers. Nothing comes back of `null`, which counts for no data, or of
a value that nests too deep to be read inside of a record. -/
inductive Returned (id : String) (value : Json) : Except Failure Bytes → Prop where
  | text (back : Json) (hnull : value ≠ .null) (hnested : Json.Nested (Json.maxDepth - 1) value)
      (hback : Json.read? value.print = some back) (halike : Json.Alike value back) :
      Returned id value (.ok back.print)
  | null (hnull : value = .null) :
      Returned id value (.error (.invalidReference (.recordWithoutData id)))
  | deep (hdeep : ¬ Json.Nested (Json.maxDepth - 1) value) (fault : Json.Fault)
      (hreason : fault.reason = .tooDeep) : Returned id value (.error (.encoding fault))

namespace Returned

variable {id : String} {result : Except Failure Bytes}

/-- Given bytes come back exactly if they are the text of the value that comes back. -/
theorem eq_ok_iff (h : Returned id value result) (bytes : Bytes) :
    result = .ok bytes ↔ value ≠ .null ∧ Json.Nested (Json.maxDepth - 1) value ∧
      ∃ back, Json.read? value.print = some back ∧ back.print = bytes := by
  cases h with
  | text back hnull hnested hback _ => simp [hnull, hnested, hback]
  | null hnull => simp [hnull]
  | deep hdeep fault _ => simp [hdeep]

/-- Whole numbers are not rounded, so what was stored is what comes back. -/
theorem eq_ok_iff_of_isWhole (h : Returned id value result) (hwhole : Json.IsWhole value)
    (bytes : Bytes) :
    result = .ok bytes ↔
      value ≠ .null ∧ Json.Nested (Json.maxDepth - 1) value ∧ value.print = bytes := by
  rw [h.eq_ok_iff]
  refine and_congr_right fun _ => and_congr_right fun hnested => ?_
  rw [Json.read?_print (hnested.mono (by decide)) hwhole]
  simp

end Returned

namespace Kept

variable {id : String} {bytes : Bytes} (h : Kept s id bytes value w)

include h

/-- The copy of the record is recognized whatever its value is: only its id and its size count. -/
theorem recognize_reference :
    recognize (Record.reference id bytes).toJson = .ok (some ⟨id, bytes.length, ""⟩) := by
  have hne : id ≠ "" := by
    rintro rfl
    exact absurd h.isId (by decide)
  exact Local.recognize_reference hne h.inRange

variable (size : Nat) (path : String)

/-- **Rehydrating.** Where the value nests too deep its record is not read; else it is, and `null` is
not there. -/
theorem run_rehydrate (hnested : Json.Nested Json.maxDepth value)
    (hreadable : Json.AllNumbers Json.Number.Readable value) :
    ∃ result, World.run (rehydrate s ⟨id, size, path⟩) w = (result, w) ∧ Returned id value result := by
  by_cases hfits : Json.Nested (Json.maxDepth - 1) value
  -- numbers may be rounded on the way, but `null` does not come of another value
  · obtain ⟨back, hback, halike⟩ := Json.exists_read?_print hnested hreadable
    have hreads := Json.value_print_of_read? hfits (by decide) hback
    have hload := RecordStore.run_load h.isId h.content
      (Record.read_print_stored_alike id h.inRange hreads halike) rfl rfl rfl
    rw [rehydrate, World.run, Program.run_bind_of_eq hload]
    by_cases hnull : value = .null
    · subst hnull
      cases halike
      exact ⟨_, rfl, .null rfl⟩
    · have hkept : back ≠ .null := by
        rintro rfl
        cases halike
        exact hnull rfl
      rw [Record.kept_of_ne hkept]
      exact ⟨_, rfl, .text back hnull hfits hback halike⟩
  -- one level is lost to the record, so a value of full depth is refused on reading
  · obtain ⟨fault, hfault, hreason⟩ :=
      Record.read_print_stored_deep id h.inRange hnested hreadable hfits
    have hload := RecordStore.run_load_fault h.isId h.content hfault
    rw [rehydrate, World.run, Program.run_bind_of_eq hload]
    exact ⟨_, rfl, .deep hfits fault hreason⟩

end Kept

/-- In a world of which nothing has been used, there is room for any candidate. -/
theorem undisturbed_blank {c : Candidate} (hsize : c.bytes.length < Json.wordLimit) :
    Undisturbed smallest [c] blank := by
  have hids : blank.dice.recordIds [c].length = ["yyyyyyyyybyybyyyyyyyyyyyyr"] := recordIds_blank
  have hdraws : ∀ draw ∈ blank.dice.draws 1, draw.length = 16 := by decide
  refine ⟨fun d hd => ?_, hdraws, ?_, ⟨[(["records"], .directory)], []⟩, by decide +kernel,
    fun id hid => ?_⟩
  · rwa [List.mem_singleton.mp hd]
  · rw [hids]
    exact List.nodup_singleton _
  · rw [hids, List.mem_singleton] at hid
    subst hid
    decide +kernel

end Local

/-! ## One candidate and its backend

Both backends name the size of the candidate's bytes, but only the chunk host has these bytes. The
contract is stated for every candidate that a gate can produce, with the threshold that the backend
itself applies. -/

/-- A candidate that a chunk host takes is given back byte for byte. -/
theorem Remote.run_offload_rehydrate (t : Chunk.Transfer) {threshold : Nat} {message : Bytes}
    {c : Candidate} {w : World} (hc : c ∈ (Gate.mk threshold).candidates message)
    (hcalm : Remote.Undisturbed t t [c] w) :
    ∃ ref r w' w'', World.run ((Remote.backend t threshold).offload c) w = (.ok (some ref), w') ∧
      (Remote.backend t threshold).recognize ref = .ok (some r) ∧ r.totalSize = c.bytes.length ∧
      World.run ((Remote.backend t threshold).rehydrate r) w' = (.ok c.bytes, w'') := by
  -- the contract is about a single candidate, so every condition is one on it
  have hone : ∀ {P : Candidate → Prop}, P c → ∀ d ∈ [c], P d := by
    intro P hP d hd
    rwa [List.mem_singleton.mp hd]
  have hmem := List.mem_singleton_self c
  have hready : Remote.Ready t w.link.delay w.host.maximum [c] w :=
    ⟨hcalm.direct, rfl, rfl, hcalm.maximum_lt, hone (Gate.bytes_ne_nil_of_mem_candidates hc),
      hcalm.fits, hcalm.storeInTime, hcalm.distinct, hcalm.fresh⟩
  obtain ⟨ref, w', hrun, hready', hstands, -⟩ :=
    Remote.offloads t threshold w.link.delay w.host.maximum c [] w hready
  have hsize : c.bytes.length < Json.wordLimit :=
    Nat.lt_of_le_of_lt (hcalm.fits c hmem) hcalm.maximum_lt
  have htime : t.calls c.bytes.length * w'.link.delay ≤ t.deadline.nanoseconds := by
    rw [hready'.delay_eq]
    exact hcalm.fetchInTime c hmem
  obtain ⟨w'', hfetch, -⟩ := t.run_fetch (Remote.serves hready'.direct hstands.2) htime
    (show Remote.Keeps w' w' from ⟨rfl, rfl⟩)
  exact ⟨_, ⟨ref, c.bytes.length, c.fieldPath⟩, w', w'', hrun,
    Remote.recognize_make _ _ hstands.1 hsize, rfl, hfetch⟩

/-- A candidate that is no JSON is declined. Any other one goes into a record file, and what comes back
depends on its value alone. -/
theorem Local.run_offload_rehydrate (s : RecordStore) {message : Bytes} {c : Candidate} {w : World}
    (hc : c ∈ (Gate.mk s.threshold).candidates message) (hcalm : Local.Undisturbed s [c] w) :
    (c.value = none → World.run ((Local.backend s).offload c) w = (.ok none, w)) ∧
      ∀ value, c.value = some value → ∃ ref r w' result,
        World.run ((Local.backend s).offload c) w = (.ok (some ref), w') ∧
        (Local.backend s).recognize ref = .ok (some r) ∧ r.totalSize = c.bytes.length ∧
        World.run ((Local.backend s).rehydrate r) w' = (result, w') ∧
        Local.Returned r.id value result := by
  constructor
  · intro hvalue
    show World.run (Local.offload s c) w = _
    rw [Local.offload, hvalue]
    rfl
  · intro value hvalue
    obtain ⟨id, w', hrun, hkept⟩ := Local.run_offload hvalue (Gate.lt_of_mem_candidates hc) hcalm
    obtain ⟨result, hresult, hreturned⟩ := hkept.run_rehydrate c.bytes.length ""
      (Gate.nested_of_mem_candidates hc hvalue) (Gate.readable_of_mem_candidates hc hvalue)
    exact ⟨_, ⟨id, c.bytes.length, ""⟩, w', result, hrun, hkept.recognize_reference, rfl, hresult,
      hreturned⟩

/-- **The contract of the backends.** What a backend makes of a candidate of the gate is recognized, with
the length of the candidate's bytes as its size. A chunk host gives back exactly those bytes. A record
file gives back the text of what the candidate's value is read back as, and so exactly those bytes if and
only if they are that text, the value is not `null`, and it does not nest so deep that it cannot be read
inside of a record. A value without binary64 numbers is read back as itself. Bytes that spell no value
stay where they are. -/
theorem rehydrate_offload (message : Bytes) (c : Candidate) :
    (∀ (t : Chunk.Transfer) (threshold : Nat) (w : World),
      c ∈ (Gate.mk threshold).candidates message → Remote.Undisturbed t t [c] w →
        ∃ ref r w' w'', World.run ((Remote.backend t threshold).offload c) w = (.ok (some ref), w') ∧
          (Remote.backend t threshold).recognize ref = .ok (some r) ∧
          r.totalSize = c.bytes.length ∧
          World.run ((Remote.backend t threshold).rehydrate r) w' = (.ok c.bytes, w'')) ∧
    ∀ (s : RecordStore) (w : World),
      c ∈ (Gate.mk s.threshold).candidates message → Local.Undisturbed s [c] w →
        (c.value = none → World.run ((Local.backend s).offload c) w = (.ok none, w)) ∧
        ∀ value, c.value = some value → ∃ ref r w' result,
          World.run ((Local.backend s).offload c) w = (.ok (some ref), w') ∧
          (Local.backend s).recognize ref = .ok (some r) ∧ r.totalSize = c.bytes.length ∧
          World.run ((Local.backend s).rehydrate r) w' = (result, w') ∧
          Local.Returned r.id value result ∧
          (∀ bytes, result = .ok bytes ↔ value ≠ .null ∧ Json.Nested (Json.maxDepth - 1) value ∧
            ∃ back, Json.read? value.print = some back ∧ back.print = bytes) ∧
          (Json.IsWhole value → ∀ bytes, result = .ok bytes ↔ value ≠ .null ∧
            Json.Nested (Json.maxDepth - 1) value ∧ value.print = bytes) := by
  constructor
  · exact fun t threshold w hc hcalm => Remote.run_offload_rehydrate t hc hcalm
  · intro s w hc hcalm
    obtain ⟨hdeclined, htaken⟩ := Local.run_offload_rehydrate s hc hcalm
    refine ⟨hdeclined, fun value hvalue => ?_⟩
    obtain ⟨ref, r, w', result, hrun, hrecognize, hsize, hrehydrate, hreturned⟩ := htaken value hvalue
    exact ⟨ref, r, w', result, hrun, hrecognize, hsize, hrehydrate, hreturned,
      hreturned.eq_ok_iff, hreturned.eq_ok_iff_of_isWhole⟩

/-- An array with a blank in its text. -/
def spaced : Candidate := ⟨"", utf8 "[1, 2]", some (.array [.number (.int 1), .number (.int 2)])⟩

theorem spaced_mem : spaced ∈ (Gate.mk 1).candidates (utf8 "[1, 2]") := by
  have hread : Json.read? (utf8 "[1, 2]") = spaced.value := by rfl
  have hother : ∀ fields, Json.read? (utf8 "[1, 2]") ≠ some (.object fields) := by
    intro fields h
    rw [hread] at h
    cases h
  have hwhole := (Gate.mk 1).whole_mem_candidates hother (by decide)
  rwa [hread] at hwhole

/-- Neither number of the array is a binary64 number. -/
theorem isWhole_spaced : Json.IsWhole (.array [.number (.int 1), .number (.int 2)]) := by
  have hnumber : ∀ n : Nat, n < Json.wordLimit → Json.IsWhole (.number (.int n)) := fun n hn =>
    .number _ (Json.Number.isWhole_natural hn)
  refine .array _ fun v hv => ?_
  simp only [List.mem_cons, List.not_mem_nil, or_false] at hv
  rcases hv with rfl | rfl
  · exact hnumber 1 (by decide)
  · exact hnumber 2 (by decide)

theorem nested_spaced : Json.Nested 1 (.array [.number (.int 1), .number (.int 2)]) := by
  refine .array 0 _ fun v hv => ?_
  simp only [List.mem_cons, List.not_mem_nil, or_false] at hv
  rcases hv with rfl | rfl
  · exact .number 0 _
  · exact .number 0 _

/-- A number that is rounded when it is read, and rounded again when its text is. -/
def rounded : Candidate :=
  ⟨"", utf8 "20.16079604759386e-19", Json.read? (utf8 "20.16079604759386e-19")⟩

/-- What is printed for the number is read as another one. -/
theorem rounded_twice : ∃ n back, rounded.value = some (.number n) ∧
    Json.read? (Json.number n).print = some back ∧ back.print = utf8 "2.0160796047593866e-18" := by
  have hsome : (rounded.value.bind Json.toNumber?).isSome = true := by decide +kernel
  obtain ⟨n, hn⟩ := Option.isSome_iff_exists.mp hsome
  obtain ⟨value, hvalue, hn⟩ := Option.bind_eq_some_iff.mp hn
  have hprint : rounded.value.map Json.print = some (utf8 "2.0160796047593862e-18") := by
    decide +kernel
  have hback : (Json.read? (utf8 "2.0160796047593862e-18")).map Json.print =
      some (utf8 "2.0160796047593866e-18") := by
    decide +kernel
  cases value with
  | number x =>
    rw [hvalue] at hprint
    rw [← Option.some_inj.mp hprint] at hback
    obtain ⟨back, hread, heq⟩ := Option.map_eq_some_iff.mp hback
    exact ⟨x, back, hvalue, hread, heq⟩
  | _ => cases hn

theorem rounded_mem : rounded ∈ (Gate.mk 1).candidates rounded.bytes := by
  have hread : Json.read? rounded.bytes = rounded.value := by simp only [rounded]
  obtain ⟨n, -, hnumber, -⟩ := rounded_twice
  refine Gate.whole_mem_candidates _ (fun fields hfields => ?_) (by decide)
  rw [hread, hnumber] at hfields
  cases hfields

/-- The blank comes back from a chunk host, and does not come back from a record file. From there the number
comes back as a neighbour of the one that was meant. -/
theorem rehydrate_offload_spaced :
    (∃ ref r w' w'', World.run ((Remote.backend (.make 3 ⟨10⟩) 1).offload spaced) (Remote.unused 100) =
        (.ok (some ref), w') ∧
      (Remote.backend (.make 3 ⟨10⟩) 1).recognize ref = .ok (some r) ∧
      World.run ((Remote.backend (.make 3 ⟨10⟩) 1).rehydrate r) w' = (.ok (utf8 "[1, 2]"), w'')) ∧
    (∃ ref r w', World.run ((Local.backend Local.smallest).offload spaced) Local.blank =
        (.ok (some ref), w') ∧
      (Local.backend Local.smallest).recognize ref = .ok (some r) ∧ r.totalSize = 6 ∧
      World.run ((Local.backend Local.smallest).rehydrate r) w' = (.ok (utf8 "[1,2]"), w')) ∧
    ∃ ref r w', World.run ((Local.backend Local.smallest).offload rounded) Local.blank =
        (.ok (some ref), w') ∧
      (Local.backend Local.smallest).recognize ref = .ok (some r) ∧ r.totalSize = 21 ∧
      World.run ((Local.backend Local.smallest).rehydrate r) w' =
        (.ok (utf8 "2.0160796047593866e-18"), w') := by
  obtain ⟨hremote, hlocal⟩ := rehydrate_offload (utf8 "[1, 2]") spaced
  refine ⟨?_, ?_, ?_⟩
  · obtain ⟨ref, r, w', w'', hrun, hrecognize, -, hrehydrate⟩ :=
      hremote (.make 3 ⟨10⟩) 1 (Remote.unused 100) spaced_mem
        (Remote.undisturbed_unused _ _ (by decide) (by decide))
    exact ⟨ref, r, w', w'', hrun, hrecognize, hrehydrate⟩
  · obtain ⟨-, htaken⟩ := hlocal Local.smallest Local.blank spaced_mem
      (Local.undisturbed_blank (by decide))
    obtain ⟨ref, r, w', result, hrun, hrecognize, hsize, hrehydrate, -, -, hreturned⟩ := htaken _ rfl
    have hnull : Json.array [.number (.int 1), .number (.int 2)] ≠ .null := by
      intro h
      cases h
    rw [(hreturned isWhole_spaced (utf8 "[1,2]")).mpr
      ⟨hnull, nested_spaced.mono (by decide), rfl⟩] at hrehydrate
    exact ⟨ref, r, w', hrun, hrecognize, hsize, hrehydrate⟩
  · obtain ⟨n, back, hnumber, hback, hprint⟩ := rounded_twice
    obtain ⟨-, htaken⟩ := (rehydrate_offload rounded.bytes rounded).2 Local.smallest Local.blank
      rounded_mem (Local.undisturbed_blank (by decide))
    obtain ⟨ref, r, w', result, hrun, hrecognize, hsize, hrehydrate, -, hreturned, -⟩ :=
      htaken _ hnumber
    have hnull : Json.number n ≠ .null := by
      intro h
      cases h
    rw [(hreturned _).mpr ⟨hnull, .number _ _, back, hback, hprint⟩] at hrehydrate
    exact ⟨ref, r, w', hrun, hrecognize, hsize, hrehydrate⟩

/-! ## A message that is an array

An array is offloaded as a whole, so the message that is left is the copy of its record and nothing
else. Resolving it is loading that record. -/

namespace Local

/-- **The local round trip of an array.** An array over the threshold goes into a record file as a whole,
and the copy of the record is the message that is left. Resolving that message gives the compact text
of the array if the array nests less deep than a message can. An array that nests as deep as a message
can does not come back: reading its record stops at the depth. -/
theorem resolve_offload_array (s : RecordStore) (message : Bytes) (items : List Json) (w : World)
    (hread : Json.read? message = some (.array items)) (hwhole : Json.IsWhole (.array items))
    (hlarge : s.threshold < message.length)
    (hcalm : Undisturbed s ((Gate.mk s.threshold).candidates message) w) :
    ∃ (id : String) (w' : World),
      World.run (Message.offload (backend s) message) w =
        (.ok (Record.reference id message).toJson.print, w') ∧
      (Json.Nested (Json.maxDepth - 1) (.array items) →
        World.run (Message.resolve (backend s) (Record.reference id message).toJson.print) w' =
          (.ok (Json.array items).print, w')) ∧
      (¬ Json.Nested (Json.maxDepth - 1) (.array items) → ∃ fault,
        World.run (Message.resolve (backend s) (Record.reference id message).toJson.print) w' =
          (.error (.encoding fault), w') ∧ fault.reason = .tooDeep) := by
  have hother : ∀ fields, Json.read? message ≠ some (.object fields) := by
    intro fields h
    rw [hread] at h
    cases h
  have hexceeds : (Gate.mk s.threshold).exceeds message.length = true := decide_eq_true hlarge
  set c : Candidate := ⟨"", message, some (.array items)⟩
  have hcandidates : (Gate.mk s.threshold).candidates message = [c] := by
    rw [Gate.candidates_other _ hother, if_pos hexceeds, hread]
  have hevaluate : (Gate.mk s.threshold).evaluate message = .whole c := by
    rw [Gate.evaluate_other _ hother, Gate.whole, if_pos hexceeds, hread]
  rw [hcandidates] at hcalm
  obtain ⟨id, w', hrun, hkept⟩ := run_offload (rfl : c.value = some (.array items)) hlarge hcalm
  have hsize : message.length < Json.wordLimit := hkept.inRange
  -- the message that is left is the copy of the record, and resolving it is loading the record
  have hback : Json.read? (Record.reference id message).toJson.print =
      some (Record.reference id message).toJson :=
    Json.read?_print ((Record.nested_reference id message).mono (by decide))
      (Record.isWhole_reference id hsize)
  have hresolve : Message.resolve (backend s) (Record.reference id message).toJson.print =
      rehydrate s ⟨id, message.length, ""⟩ := by
    have hrecognize : (backend s).recognize (Record.reference id message).toJson =
        .ok (some ⟨id, message.length, ""⟩) := hkept.recognize_reference
    rw [Message.resolve, hback]
    simp only
    rw [hrecognize]
    rfl
  obtain ⟨result, hrehydrate, hreturned⟩ :=
    hkept.run_rehydrate message.length "" (Json.read?_nested hread) (Json.read?_readable hread)
  refine ⟨id, w', ?_, fun hnested => ?_, fun hdeep => ?_⟩
  · have hthreshold : (backend s).threshold = s.threshold := rfl
    rw [Message.offload, hthreshold, hevaluate]
    exact Program.run_bind_of_eq hrun
  · have hnull : Json.array items ≠ .null := by
      intro h
      cases h
    rw [hresolve, hrehydrate, (hreturned.eq_ok_iff_of_isWhole hwhole _).mpr ⟨hnull, hnested, rfl⟩]
  · rw [hresolve, hrehydrate]
    cases hreturned with
    | text _ _ hnested _ _ => exact absurd hnested hdeep
    | null hnull => cases hnull
    | deep _ fault hreason => exact ⟨fault, rfl, hreason⟩

/-! ## The deepest array

The bound in the last theorem is met: an array as deep as a message can be is written, and is one level
too deep for the record that it is written in. -/

/-- An array in an array, and so on. -/
def brackets : Nat → Json
  | 0 => .array []
  | n + 1 => .array [brackets n]

/-- The brackets count from zero, so the deepest that is read has one pair less than the reader goes. -/
theorem nested_brackets {depth n : Nat} : Json.Nested depth (brackets n) ↔ n < depth := by
  induction n generalizing depth with
  | zero =>
    constructor
    · intro h
      cases h
      exact Nat.succ_pos _
    · intro h
      obtain ⟨k, rfl⟩ : ∃ k, depth = k + 1 := ⟨depth - 1, by omega⟩
      exact .array k [] fun v hv => absurd hv List.not_mem_nil
  | succ n ih =>
    constructor
    -- the innermost array is empty, and still needs a level
    · intro h
      cases h with
      | array k _ hitems => exact Nat.succ_lt_succ (ih.mp (hitems _ (List.mem_singleton_self _)))
    · intro h
      obtain ⟨k, rfl⟩ : ∃ k, depth = k + 1 := ⟨depth - 1, by omega⟩
      refine .array k _ fun v hv => ?_
      rw [List.mem_singleton.mp hv]
      exact ih.mpr (by omega)

theorem isWhole_brackets (n : Nat) : Json.IsWhole (brackets n) := by
  induction n with
  | zero => exact .array [] fun v hv => absurd hv List.not_mem_nil
  | succ n ih =>
    refine .array _ fun v hv => ?_
    rwa [List.mem_singleton.mp hv]

/-- Each pair takes two bytes. -/
theorem length_print_brackets (n : Nat) : (brackets n).print.length = 2 * n + 2 := by
  induction n with
  | zero => decide
  | succ n ih =>
    have hprint := Json.print_array_append [brackets n] []
    rw [List.append_nil] at hprint
    rw [brackets, hprint, Json.printItems]
    simp only [List.length_cons, List.length_append, List.length_nil, ih]
    omega

/-- The deepest array that is a message goes, and does not come back. -/
theorem resolve_offload_deepest :
    ∃ (message : Bytes) (id : String) (w' : World) (fault : Json.Fault),
      Json.read? message = some (brackets 126) ∧
      World.run (Message.offload (backend smallest) message) blank =
        (.ok (Record.reference id message).toJson.print, w') ∧
      World.run (Message.resolve (backend smallest) (Record.reference id message).toJson.print) w' =
        (.error (.encoding fault), w') ∧ fault.reason = .tooDeep := by
  have hread := Json.read?_print (nested_brackets.mpr (by decide : 126 < Json.maxDepth))
    (isWhole_brackets 126)
  have hlength := length_print_brackets 126
  have hcalm : Undisturbed smallest
      ((Gate.mk smallest.threshold).candidates (brackets 126).print) blank := by
    have hother : ∀ fields, Json.read? (brackets 126).print ≠ some (.object fields) := by
      intro fields h
      rw [hread] at h
      cases h
    have hexceeds : (Gate.mk smallest.threshold).exceeds (brackets 126).print.length = true := by
      rw [hlength]
      decide
    rw [Gate.candidates_other _ hother, if_pos hexceeds]
    exact undisturbed_blank (by rw [hlength]; decide)
  obtain ⟨id, w', hoffload, -, hdeep⟩ := resolve_offload_array smallest (brackets 126).print
    [brackets 125] blank hread (isWhole_brackets 126) (by rw [hlength]; decide) hcalm
  obtain ⟨fault, hresolve, hreason⟩ := hdeep fun h =>
    absurd (nested_brackets.mp (show Json.Nested 126 (brackets 126) from h)) (by decide)
  exact ⟨_, id, w', fault, hread, hoffload, hresolve, hreason⟩

end Local

end Stowage
