import Mathlib.Data.List.Basic
import Mathlib.Logic.Function.Basic
import Stowage.Proofs.Json.RoundTrip
import Stowage.Proofs.Message.Dialogue
import Stowage.Proofs.Message.Splice
/-!
# Stowage — what offloading asks and what comes of the replies

For any backend, which may take each candidate, decline it or fail. `Offloading` lists how offloading
a message can go, with the questions that are asked on the way; `offload_offloading` says that it goes
so, and in no other way. Which candidates were taken does not matter to where their replacements go:
a declined one is replaced by its own value (`spliceReplies_getD`).
-/

namespace Stowage.Message

open Dialogue

section

variable (threshold : Nat)

/-- The fields whose text is longer than a threshold, in order. -/
def oversized (fields : Json.Members) : Json.Members :=
  fields.filter fun field => threshold < field.2.print.length

/-- Fields with what was taken replaced: of the oversized ones, those that the replies have a reference
for. -/
def rewritten (reply : String → Option Json) (fields : Json.Members) : Json.Members :=
  fields.map fun field =>
    (field.1, if threshold < field.2.print.length then (reply field.1).getD field.2 else field.2)

/-- The question to store a field, under its key, with its text and its value. -/
def offer (field : String × Json) : Question :=
  .offload ⟨field.1, field.2.print, some field.2⟩

/-- Offers of fields, each taken or declined. -/
def offers (reply : String → Option Json) (fields : Json.Members) : List Exchange :=
  fields.map fun field => ⟨offer field, .ok (reply field.1)⟩

/-- `Offloading threshold message log result`: offloading a message asks the questions of a log, gets its
replies, and ends with a result. -/
inductive Offloading (message : Bytes) : List Exchange → Except Failure Bytes → Prop where
  | small (hother : ∀ fields, Json.read? message ≠ some (.object fields))
      (hsize : message.length ≤ threshold) : Offloading message [] (.ok message)
  | taken (hother : ∀ fields, Json.read? message ≠ some (.object fields))
      (hsize : threshold < message.length) (reference : Json) :
      Offloading message [⟨.offload ⟨"", message, Json.read? message⟩, .ok (some reference)⟩]
        (.ok reference.print)
  | declined (hother : ∀ fields, Json.read? message ≠ some (.object fields))
      (hsize : threshold < message.length) :
      Offloading message [⟨.offload ⟨"", message, Json.read? message⟩, .ok none⟩] (.ok message)
  | failed (hother : ∀ fields, Json.read? message ≠ some (.object fields))
      (hsize : threshold < message.length) (failure : Failure) :
      Offloading message [⟨.offload ⟨"", message, Json.read? message⟩, .error failure⟩]
        (.error failure)
  | fields {fields : Json.Members} (hread : Json.read? message = some (.object fields))
      (reply : String → Option Json) :
      Offloading message (offers reply (oversized threshold fields))
        (.ok (if (oversized threshold fields).any fun field => (reply field.1).isSome then
          (Json.object (rewritten threshold reply fields)).print else message))
  | stopped {fields before after : Json.Members} {field : String × Json}
      (hread : Json.read? message = some (.object fields))
      (hsplit : oversized threshold fields = before ++ field :: after)
      (reply : String → Option Json) (failure : Failure) :
      Offloading message (offers reply before ++ [⟨offer field, .error failure⟩]) (.error failure)

end

/-! ## The candidates

Candidates are offered in the order of their fields until one of them fails. A reply names its candidate
by the path of the field, so the paths must differ. -/

/-- `Offered candidates fields replaced log result`: candidates are offered in order, all of them, or up to
the first one that fails. At the end, the fields come with their replacements. -/
inductive Offered (candidates : List Candidate) (fields : Json.Members) (replaced : Bool) :
    List Exchange → Except Failure (Json.Members × Bool) → Prop where
  | all (reply : String → Option Json) :
      Offered candidates fields replaced
        (candidates.map fun c => ⟨.offload c, .ok (reply c.fieldPath)⟩)
        (.ok (spliceReplies candidates (candidates.map fun c => reply c.fieldPath) fields,
          replaced || (candidates.map fun c => reply c.fieldPath).any Option.isSome))
  | stopped {before after : List Candidate} {c : Candidate}
      (hsplit : candidates = before ++ c :: after) (reply : String → Option Json)
      (failure : Failure) :
      Offered candidates fields replaced
        (before.map (fun c => ⟨.offload c, .ok (reply c.fieldPath)⟩) ++
          [⟨.offload c, .error failure⟩])
        (.error failure)

section

variable {c : Candidate} {rest : List Candidate} {fields : Json.Members} {replaced : Bool}
  {log : List Exchange} {result : Except Failure (Json.Members × Bool)}

theorem offered_nil :
    Offered [] fields replaced log result ↔ log = [] ∧ result = .ok (fields, replaced) := by
  constructor
  · intro h
    cases h with
    | all reply =>
      rw [List.map_nil, List.map_nil, List.any_nil, Bool.or_false]
      exact ⟨rfl, rfl⟩
    | @stopped before after c hsplit => cases before <;> cases hsplit
  · rintro ⟨rfl, rfl⟩
    have hall : Offered [] fields replaced _ _ := .all fun _ => none
    rw [List.map_nil, List.map_nil, List.any_nil, Bool.or_false] at hall
    exact hall

/-- Replies for other candidates than one with a new path, together with a reply for that one. -/
theorem exists_reply (reply : String → Option Json) (first : Option Json)
    (hnew : c.fieldPath ∉ rest.map Candidate.fieldPath) :
    ∃ reply' : String → Option Json, reply' c.fieldPath = first ∧
      ∀ d ∈ rest, reply d.fieldPath = reply' d.fieldPath := by
  refine ⟨Function.update reply c.fieldPath first, Function.update_self .., fun d hd => ?_⟩
  refine (Function.update_of_ne (fun heq => ?_) _ _).symm
  exact hnew (List.mem_map.mpr ⟨d, hd, heq⟩)

/-- The first candidate is offered, and the others if it does not fail. -/
theorem offered_cons (hnew : c.fieldPath ∉ rest.map Candidate.fieldPath) :
    Offered (c :: rest) fields replaced log result ↔
      (∃ failure, log = [⟨.offload c, .error failure⟩] ∧ result = .error failure) ∨
        ∃ reply log', log = ⟨.offload c, .ok reply⟩ :: log' ∧
          Offered rest (splice fields c.fieldPath (reply.getD (c.value.getD .null)))
            (replaced || reply.isSome) log' result := by
  constructor
  · intro h
    cases h with
    | all reply =>
      refine .inr ⟨reply c.fieldPath, _, rfl, ?_⟩
      rw [List.map_cons, List.any_cons, spliceReplies, ← Bool.or_assoc]
      exact .all reply
    | @stopped before after d hsplit reply failure =>
      cases before with
      | nil =>
        cases hsplit
        exact .inl ⟨failure, rfl, rfl⟩
      | cons first before =>
        cases hsplit
        exact .inr ⟨reply c.fieldPath, _, rfl, .stopped rfl reply failure⟩
  · rintro (⟨failure, rfl, rfl⟩ | ⟨first, log', rfl, h⟩)
    · exact .stopped (List.nil_append (c :: rest)).symm (fun _ => none) failure
    -- a path comes once, so the reply to this candidate can be put beside those to the rest
    · cases h with
      | all reply =>
        obtain ⟨reply', rfl, hsame⟩ := exists_reply reply first hnew
        have hreplies : (rest.map fun d => reply d.fieldPath) = rest.map fun d => reply' d.fieldPath :=
          List.map_congr_left hsame
        have hlog : (rest.map fun d => (⟨.offload d, .ok (reply d.fieldPath)⟩ : Exchange)) =
            rest.map fun d => ⟨.offload d, .ok (reply' d.fieldPath)⟩ :=
          List.map_congr_left fun d hd => by rw [hsame d hd]
        rw [hreplies, hlog, Bool.or_assoc]
        exact .all reply'
      | @stopped before after d hsplit reply failure =>
        subst hsplit
        obtain ⟨reply', rfl, hsame⟩ := exists_reply reply first hnew
        have hlog : (before.map fun d => (⟨.offload d, .ok (reply d.fieldPath)⟩ : Exchange)) =
            before.map fun d => ⟨.offload d, .ok (reply' d.fieldPath)⟩ :=
          List.map_congr_left fun d hd => by rw [hsame d (List.mem_append_left _ hd)]
        rw [hlog]
        exact .stopped (List.cons_append ..).symm reply' failure

end

section

variable {m : Type → Type} {backend : Backend m} {c : Candidate} {rest candidates : List Candidate}
  {fields : Json.Members} {replaced : Bool} {log : List Exchange}
  {result : Except Failure (Json.Members × Bool)}

/-- The dialogue about the fields asks for the first candidate, and goes on with the others if it does
not fail. -/
theorem goes_offloadFields_cons :
    Goes (offloadFields backend.asking (c :: rest) fields replaced) log result ↔
      (∃ failure, log = [⟨.offload c, .error failure⟩] ∧ result = .error failure) ∨
        ∃ reply log', log = ⟨.offload c, .ok reply⟩ :: log' ∧
          Goes (offloadFields backend.asking rest
            (splice fields c.fieldPath (reply.getD (c.value.getD .null)))
            (replaced || reply.isSome)) log' result := by
  rw [offloadFields]
  refine goes_ask.trans ?_
  constructor
  · rintro ⟨reply, log', rfl, hgoes⟩
    cases reply with
    | error failure =>
      obtain ⟨rfl, rfl⟩ := goes_done.mp hgoes
      exact .inl ⟨failure, rfl, rfl⟩
    | ok reply =>
      refine .inr ⟨reply, log', rfl, ?_⟩
      -- a candidate that is declined does not count as replaced
      cases reply with
      | none =>
        rw [Option.isSome_none, Bool.or_false]
        exact hgoes
      | some reference =>
        rw [Option.isSome_some, Bool.or_true]
        exact hgoes
  · rintro (⟨failure, rfl, rfl⟩ | ⟨reply, log', rfl, hgoes⟩)
    · exact ⟨.error failure, [], rfl, .done _⟩
    · cases reply with
      | none =>
        rw [Option.isSome_none, Bool.or_false] at hgoes
        exact ⟨.ok none, log', rfl, hgoes⟩
      | some reference =>
        rw [Option.isSome_some, Bool.or_true] at hgoes
        exact ⟨.ok (some reference), log', rfl, hgoes⟩

/-- Candidates are offered in the way that is described. Induction on the candidates. -/
theorem goes_offloadFields (hpaths : (candidates.map Candidate.fieldPath).Nodup) :
    Goes (offloadFields backend.asking candidates fields replaced) log result ↔
      Offered candidates fields replaced log result := by
  induction candidates generalizing fields replaced log with
  | nil => exact goes_done.trans offered_nil.symm
  | cons c rest ih =>
    rw [List.map_cons, List.nodup_cons] at hpaths
    obtain ⟨hnew, hrest⟩ := hpaths
    rw [goes_offloadFields_cons, offered_cons hnew]
    simp only [ih hrest]

end

/-! ## The fields

Before anything is asked, every candidate is set to `null` in the fields. A declined candidate gets its
own value back, so no field is left so. -/

/-- A declined candidate is treated as one that is replaced by its own value. -/
theorem spliceReplies_getD (reply : Candidate → Option Json) (candidates : List Candidate) :
    ∀ fields, spliceReplies candidates (candidates.map reply) fields =
      spliceReplies candidates
        (candidates.map fun c => some ((reply c).getD (c.value.getD .null))) fields := by
  induction candidates with
  | nil => exact fun _ => rfl
  | cons c rest ih =>
    intro fields
    rw [List.map_cons, List.map_cons, spliceReplies, spliceReplies, Option.getD_some]
    exact ih _

theorem spliceReplies_rewritten (threshold : Nat) (reply : String → Option Json)
    {fields : Json.Members} (hkeys : (Json.Members.keys fields).Nodup) :
    spliceReplies ((oversized threshold fields).map Gate.candidate)
        (((oversized threshold fields).map Gate.candidate).map fun c => reply c.fieldPath)
        (fields.map fun field =>
          if (Gate.mk threshold).selects field then (field.1, .null) else field) =
      rewritten threshold reply fields := by
  have hsplice := spliceReplies_nulled (Gate.mk threshold)
    (fun c => (reply c.fieldPath).getD (c.value.getD .null)) hkeys
  rw [spliceReplies_getD fun c => reply c.fieldPath]
  refine hsplice.trans (List.map_congr_left fun field _ => ?_)
  by_cases hsize : threshold < field.2.print.length
  · have hselects : (Gate.mk threshold).selects field = true := decide_eq_true hsize
    rw [if_pos hselects, if_pos hsize]
    rfl
  · have hselects : ¬ (Gate.mk threshold).selects field = true := fun h => hsize (of_decide_eq_true h)
    rw [if_neg hselects, if_neg hsize]

/-! ## Messages -/

section

variable {m : Type → Type} {backend : Backend m} {message : Bytes} {fields : Json.Members}
  {log : List Exchange} {result : Except Failure Bytes}

/-- The dialogue about an object, also where no field is too large. -/
theorem offload_object (hread : Json.read? message = some (.object fields)) :
    offload backend.asking message =
      (offloadFields backend.asking ((oversized backend.threshold fields).map Gate.candidate)
        (fields.map fun field =>
          if (Gate.mk backend.threshold).selects field then (field.1, .null) else field) false >>=
        fun done => .done (finished message done)) := by
  have hthreshold : backend.asking.threshold = backend.threshold := rfl
  have hoversized : oversized backend.threshold fields =
      fields.filter (Gate.mk backend.threshold).selects := rfl
  unfold offload
  rw [hthreshold, Gate.evaluate_object _ hread]
  by_cases hany : fields.any (Gate.mk backend.threshold).selects
  · rw [if_pos hany]
    exact congrArg _ (funext finish_eq)
  · rw [if_neg hany, hoversized, Gate.filter_selects_eq_nil hany]
    rfl

/-- The dialogue about a message that is no object. -/
theorem offload_other (hother : ∀ fields, Json.read? message ≠ some (.object fields)) :
    offload backend.asking message =
      if backend.threshold < message.length then
        .ask (.offload ⟨"", message, Json.read? message⟩) fun reply =>
          .done (reply.map fun replacement => (replacement.map Json.print).getD message)
      else .done (.ok message) := by
  have hthreshold : backend.asking.threshold = backend.threshold := rfl
  unfold offload
  -- the message is no object, so there is at most the one candidate
  rw [hthreshold, Gate.evaluate_other _ hother, Gate.whole]
  by_cases hsize : backend.threshold < message.length
  · have hexceeds : (Gate.mk backend.threshold).exceeds message.length = true :=
      decide_eq_true hsize
    rw [if_pos hexceeds, if_pos hsize]
    refine congrArg (ask _) (funext fun reply => ?_)
    cases reply with
    | error failure => rfl
    | ok replacement => cases replacement <;> rfl
  · have hexceeds : ¬ (Gate.mk backend.threshold).exceeds message.length = true :=
      fun h => hsize (of_decide_eq_true h)
    rw [if_neg hexceeds, if_neg hsize]
    rfl

theorem offers_eq (reply : String → Option Json) (fields : Json.Members) :
    offers reply fields =
      (fields.map Gate.candidate).map fun c => ⟨.offload c, .ok (reply c.fieldPath)⟩ := by
  rw [List.map_map]
  rfl

/-- The candidates of a message have different paths, because the keys of an object differ. -/
theorem nodup_oversized (hread : Json.read? message = some (.object fields)) (threshold : Nat) :
    (((oversized threshold fields).map Gate.candidate).map Candidate.fieldPath).Nodup :=
  @Gate.nodup_fieldPaths ⟨threshold⟩ fields (Json.field_nested hread).1

theorem finished_rewritten (hread : Json.read? message = some (.object fields)) (threshold : Nat)
    (reply : String → Option Json) :
    finished message (.ok
        (spliceReplies ((oversized threshold fields).map Gate.candidate)
          (((oversized threshold fields).map Gate.candidate).map fun c => reply c.fieldPath)
          (fields.map fun field =>
            if (Gate.mk threshold).selects field then (field.1, .null) else field),
        false || (((oversized threshold fields).map Gate.candidate).map fun c =>
          reply c.fieldPath).any Option.isSome)) =
      .ok (if (oversized threshold fields).any fun field => (reply field.1).isSome then
        (Json.object (rewritten threshold reply fields)).print else message) := by
  rw [spliceReplies_rewritten threshold reply (Json.field_nested hread).1, Bool.false_or,
    List.map_map, List.any_map]
  rfl

theorem offloading_of_goes (h : Goes (offload backend.asking message) log result) :
    Offloading backend.threshold message log result := by
  by_cases hobject : ∃ fields, Json.read? message = some (.object fields)
  · obtain ⟨fields, hread⟩ := hobject
    have hpaths := nodup_oversized hread backend.threshold
    rw [offload_object hread] at h
    obtain ⟨done, hgoes, rfl⟩ := (goes_bind_of_done (finished message) fun _ => rfl).mp h
    cases (goes_offloadFields hpaths).mp hgoes with
    | all reply =>
      rw [finished_rewritten hread, ← offers_eq]
      exact .fields hread reply
    | stopped hsplit reply failure =>
      -- the candidates are split as the fields are that they come from
      obtain ⟨before, rest, hfields, rfl, hrest⟩ := List.map_eq_append_iff.mp hsplit
      obtain ⟨field, after, rfl, rfl, rfl⟩ := List.map_eq_cons_iff.mp hrest
      rw [← offers_eq]
      exact .stopped hread hfields reply failure
  · have hother : ∀ fields, Json.read? message ≠ some (.object fields) :=
      fun fields h => hobject ⟨fields, h⟩
    rw [offload_other hother] at h
    split at h
    · next hsize =>
      obtain ⟨reply, rest, rfl, hrest⟩ := goes_ask.mp h
      obtain ⟨rfl, rfl⟩ := goes_done.mp hrest
      cases reply with
      | error failure => exact .failed hother hsize failure
      | ok replacement =>
        cases replacement with
        | none => exact .declined hother hsize
        | some reference => exact .taken hother hsize reference
    · next hsize =>
      obtain ⟨rfl, rfl⟩ := goes_done.mp h
      exact .small hother (Nat.le_of_not_lt hsize)

theorem goes_of_offloading (h : Offloading backend.threshold message log result) :
    Goes (offload backend.asking message) log result := by
  cases h with
  | small hother hsize =>
    rw [offload_other hother, if_neg (Nat.not_lt_of_le hsize)]
    exact .done _
  | taken hother hsize reference =>
    rw [offload_other hother, if_pos hsize]
    exact .ask (.done _)
  | declined hother hsize =>
    rw [offload_other hother, if_pos hsize]
    exact .ask (.done _)
  | failed hother hsize failure =>
    rw [offload_other hother, if_pos hsize]
    exact .ask (.done _)
  -- the candidates have different paths because the keys of the object are different
  | fields hread reply =>
    rw [offload_object hread, ← finished_rewritten hread, offers_eq]
    refine (goes_bind_of_done (finished message) fun _ => rfl).mpr ⟨_, ?_, rfl⟩
    exact (goes_offloadFields (nodup_oversized hread _)).mpr (.all reply)
  | stopped hread hsplit reply failure =>
    have hcandidates := congrArg (List.map Gate.candidate) hsplit
    rw [List.map_append, List.map_cons] at hcandidates
    rw [offload_object hread, offers_eq]
    refine (goes_bind_of_done (finished message) fun _ => rfl).mpr ⟨.error failure, ?_, rfl⟩
    exact (goes_offloadFields (nodup_oversized hread _)).mpr (.stopped hcandidates reply failure)

/-- **Offloading a message** with any backend is a dialogue that comes to an end whatever the replies, and
the ways in which it can go are those of `Offloading`. -/
theorem offload_offloading [Monad m] [LawfulMonad m] (backend : Backend m) (message : Bytes) :
    offload backend message = (offload backend.asking message).answered backend ∧
      (∀ answer, ∃ log result, Goes (offload backend.asking message) log result ∧
        Follows answer log) ∧
      ∀ log result, Goes (offload backend.asking message) log result ↔
        Offloading backend.threshold message log result :=
  ⟨offload_answered backend message, fun answer => exists_goes _ answer,
    fun _ _ => ⟨offloading_of_goes, goes_of_offloading⟩⟩

end

/-- Backend that takes texts, of which it keeps the length, and declines everything else. -/
def texts : Backend Id where
  name := "texts"
  threshold := 4
  offload c :=
    match c.value with
    | some (.string s) => .ok (some (.number (.int s.length)))
    | _ => .ok none
  recognize _ := .ok none
  rehydrate r := .error (.notFound r.id)

/-- Of three fields one is taken, one declined, and one is not too large. -/
theorem offload_offloading_texts :
    LawfulMonad.{0, 0} Id ∧
      offload texts (Json.object [("a", .string "xyz"), ("b", .bool false), ("c", .null)]).print =
        (offload texts.asking (Json.object [("a", .string "xyz"), ("b", .bool false),
          ("c", .null)]).print).answered texts ∧
      Goes (offload texts.asking (Json.object [("a", .string "xyz"), ("b", .bool false),
          ("c", .null)]).print)
        [⟨offer ("a", .string "xyz"), .ok (some (.number (.int 3)))⟩,
          ⟨offer ("b", .bool false), .ok none⟩]
        (.ok (Json.object [("a", .number (.int 3)), ("b", .bool false), ("c", .null)]).print) := by
  have hlawful : LawfulMonad.{0, 0} Id := inferInstance
  -- the message is what the printer writes, so it is read back as the fields it was written from
  have hread : Json.read? (Json.object [("a", .string "xyz"), ("b", .bool false),
      ("c", .null)]).print = some (.object [("a", .string "xyz"), ("b", .bool false), ("c", .null)]) := by
    refine Json.read?_print (.object _ _ (by decide) ?_) (.object _ ?_)
    · rw [List.forall_mem_cons, List.forall_mem_cons, List.forall_mem_singleton]
      exact ⟨.string _ _, .bool _ _, .null _⟩
    · rw [List.forall_mem_cons, List.forall_mem_cons, List.forall_mem_singleton]
      exact ⟨.string _, .bool _, .null⟩
  obtain ⟨hanswered, -, hgoes⟩ := offload_offloading texts
    (Json.object [("a", .string "xyz"), ("b", .bool false), ("c", .null)]).print
  refine ⟨hlawful, hanswered, (hgoes _ _).mpr ?_⟩
  exact .fields hread fun key => if key = "a" then some (.number (.int 3)) else none

end Stowage.Message
