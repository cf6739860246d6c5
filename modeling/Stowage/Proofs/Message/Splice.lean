import Mathlib.Data.List.Forall2
import Mathlib.Data.List.Nodup
import Mathlib.Logic.Function.Basic
import Stowage.Message
import Stowage.Proofs.Json.Nesting
import Stowage.Proofs.Program
/-!
# Stowage — offloading, apart from the calls

Which calls offloading makes does not depend on what is spliced where. `offloadAll` makes the calls
for the candidates of a message and `assemble` puts the replies into it; `offload_eq` says that
offloading is the one after the other. `Gate.rewritten` says what comes out when every candidate has
been replaced: a field for a field, in place.
-/

namespace Stowage

/-! ## The candidates of a message

Candidates are found before anything is called. A message that is an object is looked at field by field,
any other as a whole. -/

/-- The candidates in what a gate makes of a message. -/
def Evaluation.candidates : Evaluation → List Candidate
  | passthrough => []
  | fields _ candidates => candidates
  | whole candidate => [candidate]

namespace Gate

/-- The parts of a message that are too large. -/
def candidates (gate : Gate) (message : Bytes) : List Candidate :=
  (gate.evaluate message).candidates

/-- Fields with the selected ones replaced. -/
def replaced (gate : Gate) (reference : Candidate → Json) (fields : Json.Members) : Json.Members :=
  fields.map fun field =>
    if gate.selects field then (field.1, reference (candidate field)) else field

/-- A message with all of its candidates replaced. -/
def rewritten (gate : Gate) (reference : Candidate → Json) (message : Bytes) : Bytes :=
  match Json.read? message with
  | some (.object fields) =>
    if fields.any gate.selects then (Json.object (gate.replaced reference fields)).print else message
  | value =>
    if gate.exceeds message.length then (reference ⟨"", message, value⟩).print else message

section

variable {gate : Gate} {fields : Json.Members}

theorem candidate_mem {field : String × Json} (hfield : field ∈ fields)
    (hselects : gate.selects field) :
    candidate field ∈ (fields.filter gate.selects).map candidate :=
  List.mem_map_of_mem (List.mem_filter.mpr ⟨hfield, hselects⟩)

theorem filter_selects_eq_nil (h : ¬ fields.any gate.selects) : fields.filter gate.selects = [] := by
  rw [List.filter_eq_nil_iff]
  exact fun field hfield hselects => h (List.any_eq_true.mpr ⟨field, hfield, hselects⟩)

theorem nodup_fieldPaths (hkeys : (Json.Members.keys fields).Nodup) :
    (((fields.filter gate.selects).map candidate).map Candidate.fieldPath).Nodup := by
  rw [List.map_map]
  exact (List.filter_sublist.map Prod.fst).nodup hkeys

end

/-- An object is evaluated by its fields; those that are candidates are set to `null`. -/
theorem evaluate_object (gate : Gate) {message : Bytes} {fields : Json.Members}
    (h : Json.read? message = some (.object fields)) :
    gate.evaluate message =
      if fields.any gate.selects then
        .fields (fields.map fun field => if gate.selects field then (field.1, .null) else field)
          ((fields.filter gate.selects).map candidate)
      else .passthrough := by
  unfold evaluate
  rw [h]
  by_cases hany : fields.any gate.selects
  · obtain ⟨field, hfield, hselects⟩ := List.any_eq_true.mp hany
    have hne : ((fields.filter gate.selects).map candidate).isEmpty = false := by
      rw [List.isEmpty_eq_false_iff_exists_mem]
      exact ⟨candidate field, candidate_mem hfield hselects⟩
    rw [if_pos hany]
    simp only [hne, Bool.false_eq_true, if_false]
  · rw [if_neg hany]
    simp only [filter_selects_eq_nil hany, List.map_nil, List.isEmpty_nil, if_true]

/-- Any other message is evaluated as a whole. -/
theorem evaluate_other (gate : Gate) {message : Bytes}
    (h : ∀ fields, Json.read? message ≠ some (.object fields)) :
    gate.evaluate message = gate.whole message (Json.read? message) := by
  unfold evaluate
  split
  · next heq => rw [heq]
  · next fields heq => exact absurd heq (h fields)
  · next value heq => rw [heq]

/-- The candidates of an object are its fields that are too large. -/
theorem candidates_object (gate : Gate) {message : Bytes} {fields : Json.Members}
    (h : Json.read? message = some (.object fields)) :
    gate.candidates message = (fields.filter gate.selects).map candidate := by
  rw [candidates, gate.evaluate_object h]
  by_cases hany : fields.any gate.selects
  · rw [if_pos hany]
    rfl
  · rw [if_neg hany, filter_selects_eq_nil hany]
    rfl

/-- The only candidate of any other message is the message itself. -/
theorem candidates_other (gate : Gate) {message : Bytes}
    (h : ∀ fields, Json.read? message ≠ some (.object fields)) :
    gate.candidates message =
      if gate.exceeds message.length then [⟨"", message, Json.read? message⟩] else [] := by
  rw [candidates, gate.evaluate_other h, whole]
  split <;> rfl

/-- A candidate is larger than the threshold. -/
theorem lt_of_mem_candidates {gate : Gate} {message : Bytes} {c : Candidate}
    (hc : c ∈ gate.candidates message) : gate.threshold < c.bytes.length := by
  by_cases hobject : ∃ fields, Json.read? message = some (.object fields)
  · obtain ⟨fields, hread⟩ := hobject
    rw [gate.candidates_object hread] at hc
    obtain ⟨field, hfield, rfl⟩ := List.mem_map.mp hc
    exact of_decide_eq_true (List.mem_filter.mp hfield).2
  · rw [gate.candidates_other fun fields h => hobject ⟨fields, h⟩] at hc
    split at hc
    · next hexceeds =>
      rw [List.mem_singleton] at hc
      subst hc
      exact of_decide_eq_true hexceeds
    · cases hc

theorem bytes_ne_nil_of_mem_candidates {gate : Gate} {message : Bytes} {c : Candidate}
    (hc : c ∈ gate.candidates message) : c.bytes ≠ [] := by
  intro hnil
  have hlt := lt_of_mem_candidates hc
  rw [hnil] at hlt
  exact absurd hlt (Nat.not_lt_zero _)

/-- No two candidates of a message name the same field. -/
theorem nodup_candidates (gate : Gate) (message : Bytes) :
    ((gate.candidates message).map Candidate.fieldPath).Nodup := by
  by_cases hobject : ∃ fields, Json.read? message = some (.object fields)
  · obtain ⟨fields, hread⟩ := hobject
    rw [gate.candidates_object hread]
    exact nodup_fieldPaths (Json.field_nested hread).1
  · rw [gate.candidates_other fun fields h => hobject ⟨fields, h⟩]
    split
    · simp
    · exact List.nodup_nil

end Gate

/-! ## The calls and the splices

Calls come first and splices later, since no call depends on what was spliced before it. -/

namespace Message

/-- Offloads candidates one after the other, up to the first failure, and keeps the replies. -/
def offloadAll (backend : Backend Program) :
    List Candidate → Program (Except Failure (List (Option Json)))
  | [] => .done (.ok [])
  | c :: rest =>
    (backend.offload c).bind fun reply =>
      match reply with
      | .error failure => .done (.error failure)
      | .ok replacement =>
        (offloadAll backend rest).bind fun replies => .done (replies.map (replacement :: ·))

/-- Splices replies into fields. A declined candidate gets its value back. -/
def spliceReplies : List Candidate → List (Option Json) → Json.Members → Json.Members
  | c :: candidates, reply :: replies, fields =>
    spliceReplies candidates replies
      (splice fields c.fieldPath (reply.getD (c.value.getD .null)))
  | _, _, fields => fields

/-- The message that the replies to its candidates lead to. -/
def assemble (message : Bytes) : Evaluation → List (Option Json) → Bytes
  | .whole _, some reference :: _ => reference.print
  | .fields fields candidates, replies =>
    if replies.any Option.isSome then (Json.object (spliceReplies candidates replies fields)).print
    else message
  | _, _ => message

theorem offloadFields_eq (backend : Backend Program) (candidates : List Candidate) :
    ∀ (fields : Json.Members) (replaced : Bool),
      offloadFields backend candidates fields replaced =
        (offloadAll backend candidates).bind fun replies =>
          .done (replies.map fun replies =>
            (spliceReplies candidates replies fields, replaced || replies.any Option.isSome)) := by
  -- the calls do not depend on what has been spliced, so the splices can wait for the replies
  induction candidates with
  | nil =>
    intro fields replaced
    show Program.done _ = Program.done (Except.ok (fields, replaced || false))
    rw [Bool.or_false]
  | cons c rest ih =>
    intro fields replaced
    rw [offloadFields, offloadAll, Program.bind_assoc]
    show (backend.offload c).bind _ = _
    refine congrArg (backend.offload c).bind (funext fun reply => ?_)
    cases reply with
    | error failure => rfl
    | ok replacement =>
      simp only
      rw [Program.bind_assoc]
      cases replacement with
      | none =>
        simp only
        rw [ih]
        refine congrArg (offloadAll backend rest).bind (funext fun replies => ?_)
        cases replies <;> rfl
      | some reference =>
        simp only
        rw [ih]
        refine congrArg (offloadAll backend rest).bind (funext fun replies => ?_)
        cases replies with
        | error failure => rfl
        | ok replies =>
          show Program.done _ = Program.done (Except.ok (_, replaced || (true || _)))
          rw [Bool.true_or, Bool.or_true]
          rfl

/-- **Offloading.** The calls for the candidates are made, and then the message is put together. -/
theorem offload_eq (backend : Backend Program) (message : Bytes) :
    offload backend message =
      (offloadAll backend ((Gate.mk backend.threshold).candidates message)).bind fun replies =>
        .done (replies.map (assemble message ((Gate.mk backend.threshold).evaluate message))) := by
  unfold offload Gate.candidates
  cases (Gate.mk backend.threshold).evaluate message with
  | passthrough => rfl
  -- one candidate is the list of one
  | whole c =>
    show (backend.offload c).bind _ = Program.bind (offloadAll backend [c]) _
    rw [offloadAll, Program.bind_assoc]
    refine congrArg (backend.offload c).bind (funext fun reply => ?_)
    cases reply with
    | error failure => rfl
    | ok replacement => cases replacement <;> rfl
  | fields fields candidates =>
    show (offloadFields backend candidates fields false).bind _ =
      Program.bind (offloadAll backend candidates) _
    rw [offloadFields_eq, Program.bind_assoc]
    refine congrArg (offloadAll backend candidates).bind (funext fun replies => ?_)
    cases replies with
    | error failure => rfl
    | ok replies =>
      simp only [Except.map, Program.bind_done, Bool.false_or, assemble]
      cases replies.any Option.isSome <;> rfl

/-! ## Every candidate replaced -/

/-- Splicing a replacement for every candidate replaces the fields that candidates name. -/
theorem spliceReplies_some (reference : Candidate → Json) (candidates : List Candidate)
    (hpaths : (candidates.map Candidate.fieldPath).Nodup) :
    ∀ fields : Json.Members,
      spliceReplies candidates (candidates.map fun c => some (reference c)) fields =
        fields.map fun field =>
          match Assoc.find? (candidates.map fun c => (c.fieldPath, reference c)) field.1 with
          | some value => (field.1, value)
          | none => field := by
  induction candidates with
  | nil => exact fun fields => (List.map_id fields).symm
  | cons c rest ih =>
    intro fields
    rw [List.map_cons, List.nodup_cons] at hpaths
    obtain ⟨hnew, hrest⟩ := hpaths
    -- no later candidate has the path of the first one
    have hnone : Assoc.find? (rest.map fun c => (c.fieldPath, reference c)) c.fieldPath = none := by
      rw [Assoc.find?_eq_none_iff]
      intro p hp heq
      obtain ⟨d, hd, rfl⟩ := List.mem_map.mp hp
      exact hnew (List.mem_map.mpr ⟨d, hd, heq⟩)
    rw [List.map_cons, spliceReplies, ih hrest, Option.getD_some, splice, List.map_map]
    refine List.map_congr_left fun field _ => ?_
    rw [List.map_cons, Function.comp_apply]
    by_cases hkey : field.1 = c.fieldPath
    · rw [hkey, Assoc.find?_cons_self]
      simp only [beq_self_eq_true, if_true, hnone]
    · rw [Assoc.find?_cons_of_ne _ _ (Ne.symm hkey), if_neg (by simpa using hkey)]

theorem find?_candidates (gate : Gate) (reference : Candidate → Json) {fields : Json.Members}
    (hkeys : (Json.Members.keys fields).Nodup) {field : String × Json} (hfield : field ∈ fields) :
    Assoc.find? (((fields.filter gate.selects).map Gate.candidate).map fun c =>
        (c.fieldPath, reference c)) field.1 =
      if gate.selects field then some (reference (Gate.candidate field)) else none := by
  split
  · next hselects =>
    have hmem : (field.1, reference (Gate.candidate field)) ∈
        ((fields.filter gate.selects).map Gate.candidate).map fun c => (c.fieldPath, reference c) :=
      List.mem_map.mpr ⟨Gate.candidate field, Gate.candidate_mem hfield hselects, rfl⟩
    refine Assoc.find?_eq_some_of_mem ?_ hmem
    rw [List.map_map]
    exact Gate.nodup_fieldPaths hkeys
  · next hselects =>
    rw [Assoc.find?_eq_none_iff]
    intro p hp hkey
    obtain ⟨c, hc, rfl⟩ := List.mem_map.mp hp
    obtain ⟨other, hother, rfl⟩ := List.mem_map.mp hc
    obtain ⟨hin, hother⟩ := List.mem_filter.mp hother
    -- a candidate with the key of the field comes from the field itself
    have hsame : other = field := List.inj_on_of_nodup_map hkeys hin hfield hkey
    exact hselects (hsame ▸ hother)

/-- Fields that hold `null` in place of candidates, with the candidates replaced, are the fields with
the selected ones replaced. -/
theorem spliceReplies_nulled (gate : Gate) (reference : Candidate → Json) {fields : Json.Members}
    (hkeys : (Json.Members.keys fields).Nodup) :
    spliceReplies ((fields.filter gate.selects).map Gate.candidate)
        (((fields.filter gate.selects).map Gate.candidate).map fun c => some (reference c))
        (fields.map fun field => if gate.selects field then (field.1, .null) else field) =
      gate.replaced reference fields := by
  rw [spliceReplies_some reference _ (Gate.nodup_fieldPaths hkeys), List.map_map, Gate.replaced]
  refine List.map_congr_left fun field hfield => ?_
  have hfind := find?_candidates gate reference hkeys hfield
  rw [Function.comp_apply]
  by_cases hselects : gate.selects field
  · rw [if_pos hselects] at hfind ⊢
    rw [if_pos hselects, hfind]
  · rw [if_neg hselects] at hfind ⊢
    rw [if_neg hselects, hfind]

/-- **What is put together.** When every candidate has a replacement, the message comes out with all
of its candidates replaced. -/
theorem assemble_some (gate : Gate) (reference : Candidate → Json) (message : Bytes) :
    assemble message (gate.evaluate message)
        ((gate.candidates message).map fun c => some (reference c)) =
      gate.rewritten reference message := by
  by_cases hobject : ∃ fields, Json.read? message = some (.object fields)
  · obtain ⟨fields, hread⟩ := hobject
    have hkeys := (Json.field_nested hread).1
    rw [gate.candidates_object hread, gate.evaluate_object hread, Gate.rewritten, hread]
    by_cases hany : fields.any gate.selects
    -- a reply for every candidate, so some reply is a reference once a field is selected
    · obtain ⟨field, hfield, hselects⟩ := List.any_eq_true.mp hany
      have hsome : (((fields.filter gate.selects).map Gate.candidate).map fun c =>
          some (reference c)).any Option.isSome = true := by
        rw [List.any_eq_true]
        exact ⟨some (reference (Gate.candidate field)),
          List.mem_map.mpr ⟨_, Gate.candidate_mem hfield hselects, rfl⟩, rfl⟩
      simp only [if_pos hany, assemble]
      rw [if_pos hsome, spliceReplies_nulled gate reference hkeys]
    · simp only [if_neg hany]
      rfl
  · have hother : ∀ fields, Json.read? message ≠ some (.object fields) :=
      fun fields h => hobject ⟨fields, h⟩
    -- no object: the whole message is the candidate, or there is none
    rw [gate.candidates_other hother, gate.evaluate_other hother, Gate.whole, Gate.rewritten]
    by_cases hexceeds : gate.exceeds message.length
    · rw [if_pos hexceeds, if_pos hexceeds]
      split
      · next fields heq => exact absurd heq (hother fields)
      · next heq => rw [if_pos hexceeds]; rfl
    · rw [if_neg hexceeds, if_neg hexceeds]
      split
      · next fields heq => exact absurd heq (hother fields)
      · next heq => rw [if_neg hexceeds]; rfl

/-- Results that go with the items of a list, one by one, depend on a key of the items alone if the
keys are distinct. -/
theorem exists_by_key {α β γ κ : Type} [DecidableEq κ] [Inhabited γ] (key : α → κ)
    {f : α → γ → β} {P : α → γ → Prop} {items : List α} {results : List β}
    (h : List.Forall₂ (fun a b => ∃ x, b = f a x ∧ P a x) items results)
    (hkeys : (items.map key).Nodup) :
    ∃ g : κ → γ, results = items.map (fun a => f a (g (key a))) ∧ ∀ a ∈ items, P a (g (key a)) := by
  induction h with
  | nil => exact ⟨fun _ => default, rfl, fun a ha => absurd ha List.not_mem_nil⟩
  | @cons a b items results hab _ ih =>
    obtain ⟨x, rfl, hx⟩ := hab
    rw [List.map_cons, List.nodup_cons] at hkeys
    obtain ⟨hnew, hrest⟩ := hkeys
    obtain ⟨g, hresults, hP⟩ := ih hrest
    -- the other items have other keys and keep what they had
    have hother : ∀ c ∈ items, Function.update g (key a) x (key c) = g (key c) := by
      intro c hc
      refine Function.update_of_ne (fun heq => ?_) _ _
      exact hnew (List.mem_map.mpr ⟨c, hc, heq⟩)
    refine ⟨Function.update g (key a) x, ?_, ?_⟩
    · rw [List.map_cons, Function.update_self, hresults]
      congr 1
      exact List.map_congr_left fun c hc => by rw [hother c hc]
    · intro c hc
      rcases List.mem_cons.mp hc with rfl | hc
      · rw [Function.update_self]
        exact hx
      · rw [hother c hc]
        exact hP c hc

end Message

end Stowage
