import Stowage.Proofs.Backend.Idempotent
/-!
# Stowage — where a marker belongs

A marker names the field that its payload came from, and an empty path is the sign of a whole message.
That sign is no text of its own: a field may have the empty key. Every other field keeps its marker to
itself (`field_markers_apart`): sent alone, the marker is refused, and nothing is fetched. The marker of
the field with the empty key is followed as if it stood for a message, and its candidate passes for one.
-/

namespace Stowage

/-- A candidate is taken for a whole message if its path is empty. -/
theorem Candidate.isWhole_iff (c : Candidate) : c.isWhole = true ↔ c.fieldPath = "" :=
  String.isEmpty_iff

namespace Gate

variable {gate : Gate} {message : Bytes} {c : Candidate}

/-- A message that is judged as a whole is no object, and its one candidate. -/
theorem of_evaluate_whole (h : gate.evaluate message = .whole c) :
    (∀ fields, Json.read? message ≠ some (.object fields)) ∧
      gate.exceeds message.length = true ∧ c = ⟨"", message, Json.read? message⟩ := by
  have hother : ∀ fields, Json.read? message ≠ some (.object fields) := by
    intro fields hread
    rw [gate.evaluate_object hread] at h
    split at h <;> cases h
  rw [gate.evaluate_other hother, whole] at h
  split at h
  · next hexceeds =>
    cases h
    exact ⟨hother, hexceeds, rfl⟩
  · cases h

end Gate

namespace Remote

open Chunk
open Disk (faulty)

/-- A drawn reference has an id to ask for. -/
theorem Drawn.ne_empty {ref : String} (h : Drawn ref) : ref ≠ "" := by
  obtain ⟨draw, -, rfl⟩ := h
  exact Uuid.text_ne_empty _

/-- What becomes of a marker that is sent alone, as a message. -/
theorem resolve_markerOf (t : Transfer) (threshold : Nat) {c : Candidate} {ref : String}
    (href : Drawn ref) (hsize : c.bytes.length < Json.wordLimit) :
    Message.resolve (backend t threshold) (markerOf c ref).print =
      if c.fieldPath = "" then t.fetch ref c.bytes.length
      else .done (.error (.invalidReference (.topLevelField ref c.fieldPath))) := by
  have hread : Json.read? (markerOf c ref).print = some (markerOf c ref) :=
    Json.read?_print ((Marker.nested_toJson _).mono (by decide)) (Marker.isWhole_toJson hsize)
  have hrecognize : (backend t threshold).recognize (markerOf c ref) =
      .ok (some ⟨ref, c.bytes.length, c.fieldPath⟩) :=
    recognize_make _ _ href.ne_empty hsize
  rw [Message.resolve, hread]
  simp only [hrecognize, String.isEmpty_iff]
  rfl

variable {t : Transfer} {threshold : Nat} {message message' : Bytes} {d d' : Disk}
  {log : List Program.Exchange}

/-- **Where a marker belongs.** Whatever the host does, if offloading succeeds, then every field of an
object that was too large is replaced by a marker of its own. Its candidate is one of a whole message,
and its marker is followed when it is sent alone, exactly if the key of the field is empty; with any
other key the marker alone is refused without a call. The marker of a message that was judged as a whole
is followed. -/
theorem field_markers_apart
    (h : Program.Ends faulty (Message.offload (backend t threshold) message) d log (.ok message') d')
    (hsize : ∀ c ∈ (Gate.mk threshold).candidates message, c.bytes.length < Json.wordLimit) :
    ∃ refOf : String → String,
      message' = (Gate.mk threshold).rewritten (fun c => markerOf c (refOf c.fieldPath)) message ∧
      (∀ fields, Json.read? message = some (.object fields) →
        ∀ field ∈ fields, (Gate.mk threshold).selects field = true →
          ((Gate.candidate field).isWhole = true ↔ field.1 = "") ∧
          (field.1 ≠ "" → ∀ t' threshold', Message.resolve (backend t' threshold')
            (markerOf (Gate.candidate field) (refOf field.1)).print =
              .done (.error (.invalidReference (.topLevelField (refOf field.1) field.1)))) ∧
          (field.1 = "" → ∀ t' threshold', Message.resolve (backend t' threshold')
            (markerOf (Gate.candidate field) (refOf field.1)).print =
              t'.fetch (refOf field.1) field.2.print.length)) ∧
      ∀ c, (Gate.mk threshold).evaluate message = .whole c →
        c.isWhole = true ∧ message' = (markerOf c (refOf "")).print ∧
          ∀ t' threshold', Message.resolve (backend t' threshold') message' =
            t'.fetch (refOf "") message.length := by
  obtain ⟨refOf, hmessage, hdrawn⟩ := ends_offload_message h
  refine ⟨refOf, hmessage, fun fields hread field hfield hselects => ?_, fun c hwhole => ?_⟩
  · have hmem : Gate.candidate field ∈ (Gate.mk threshold).candidates message := by
      rw [Gate.candidates_object _ hread]
      exact Gate.candidate_mem hfield hselects
    have href : Drawn (refOf field.1) := hdrawn _ hmem
    -- the path of the marker decides, and the path is the key
    refine ⟨Candidate.isWhole_iff _, fun hkey t' threshold' => ?_, fun hkey t' threshold' => ?_⟩
    · rw [resolve_markerOf t' threshold' href (hsize _ hmem)]
      exact if_neg hkey
    · rw [resolve_markerOf t' threshold' href (hsize _ hmem)]
      exact if_pos hkey
  -- a message that goes as a whole has no key, so its path is empty
  · obtain ⟨hother, hexceeds, rfl⟩ := Gate.of_evaluate_whole hwhole
    rw [Gate.candidates_other _ hother, if_pos hexceeds] at hdrawn hsize
    rw [Gate.rewritten_other _ _ hother, if_pos hexceeds] at hmessage
    refine ⟨rfl, hmessage, fun t' threshold' => ?_⟩
    rw [hmessage, resolve_markerOf t' threshold' (hdrawn _ (List.mem_singleton_self _))
      (hsize _ (List.mem_singleton_self _))]
    exact if_pos rfl

/-- Two large fields, one of them with the empty key. -/
def unnamed : Json.Members :=
  [("", .array [.number (.int 7)]), ("a", .array [.number (.int 7)])]

theorem read?_unnamed : Json.read? (Json.object unnamed).print = some (.object unnamed) := by
  refine Json.read?_print (.object _ _ (by decide) ?_) (.object _ ?_)
  · simp [unnamed, Json.Nested.array, Json.Nested.number]
  · have hseven : Json.IsWhole (.number (.int 7)) := .number _ (.int 7 (by decide) (by decide))
    have harray : Json.IsWhole (.array [.number (.int 7)]) := .array _ (by simpa using hseven)
    simpa [unnamed] using harray

/-- The one marker is followed as if it stood for a message, the other one is refused. -/
theorem field_markers_apart_unnamed :
    ∃ (refOf : String → String) (message' : Bytes) (w' : World),
      message' = (Gate.mk 2).rewritten (fun c => markerOf c (refOf c.fieldPath))
        (Json.object unnamed).print ∧
      World.run (Message.offload (backend (.make 2 ⟨10⟩) 2) (Json.object unnamed).print)
          (unused 100) = (.ok message', w') ∧
      Message.resolve (backend (.make 2 ⟨10⟩) 2)
          (markerOf ⟨"a", utf8 "[7]", some (.array [.number (.int 7)])⟩ (refOf "a")).print =
        .done (.error (.invalidReference (.topLevelField (refOf "a") "a"))) ∧
      Message.resolve (backend (.make 2 ⟨10⟩) 2)
          (markerOf ⟨"", utf8 "[7]", some (.array [.number (.int 7)])⟩ (refOf "")).print =
        Transfer.fetch (.make 2 ⟨10⟩) (refOf "") 3 := by
  -- both fields are over the threshold, also the one under the empty key
  have hcandidates : (Gate.mk 2).candidates (Json.object unnamed).print =
      unnamed.map Gate.candidate := by
    rw [Gate.candidates_object _ read?_unnamed]
    rfl
  have hcalm : Undisturbed (.make 2 ⟨10⟩) (.make 2 ⟨10⟩)
      ((Gate.mk 2).candidates (Json.object unnamed).print) (unused 100) := by
    rw [hcandidates]
    refine ⟨⟨rfl, fun _ => rfl⟩, by decide, ?_, ?_, ?_, by decide +kernel, fun _ _ => rfl⟩
    all_goals decide
  obtain ⟨_, w', hrun, -, hc⟩ := run_offload_undisturbed hcalm
  have hends := World.ends_run (Message.offload (backend (.make 2 ⟨10⟩) 2) (Json.object unnamed).print)
    (w := unused 100) (fun _ hmem => absurd hmem List.not_mem_nil)
  rw [hrun] at hends
  obtain ⟨refOf, hmessage, hfields, -⟩ := field_markers_apart hends fun c hmem => (hc c hmem).1
  have hfield := hfields _ read?_unnamed
  refine ⟨refOf, _, w', hmessage, hrun, ?_, ?_⟩
  · exact (hfield ("a", .array [.number (.int 7)]) (by simp [unnamed]) (by decide)).2.1 (by decide) _ _
  · exact (hfield ("", .array [.number (.int 7)]) (by simp [unnamed]) (by decide)).2.2 rfl _ _

end Remote

end Stowage
