import Stowage.Proofs.Json.RoundTrip
import Stowage.Proofs.Message.Splice
/-!
# Stowage — offloading and resolving, for any backend

What a backend and a world have to do for a message to survive. `Offloads` says that candidates are
taken one after the other and that what was stored for one stands while the next ones are stored;
`Restores` says what rehydrating a reference ends with. From these, `run_offload` and `run_resolve`
follow for whole messages, whichever of their fields are too large.
-/

namespace Stowage

namespace Gate

/-- What a message comes back as: one of which something was replaced is printed anew. -/
def canonical (gate : Gate) (message : Bytes) : Bytes :=
  match Json.read? message with
  | some (.object fields) =>
    if fields.any gate.selects then (Json.object fields).print else message
  | _ => message

theorem keys_replaced (gate : Gate) (reference : Candidate → Json) (fields : Json.Members) :
    Json.Members.keys (gate.replaced reference fields) = Json.Members.keys fields := by
  rw [Json.Members.keys, replaced, List.map_map]
  refine List.map_congr_left fun field _ => ?_
  rw [Function.comp_apply]
  split <;> rfl

/-- A field after replacing was there before, or stands for a candidate. -/
theorem mem_replaced {gate : Gate} {reference : Candidate → Json} {fields : Json.Members}
    {field : String × Json} (h : field ∈ gate.replaced reference fields) :
    (field ∈ fields ∧ ¬ gate.selects field) ∨ ∃ old ∈ fields, gate.selects old ∧
      field.1 = old.1 ∧ field.2 = reference (candidate old) := by
  obtain ⟨old, hold, rfl⟩ := List.mem_map.mp h
  by_cases hselects : gate.selects old
  · rw [if_pos hselects]
    exact .inr ⟨old, hold, hselects, rfl, rfl⟩
  · rw [if_neg hselects]
    exact .inl ⟨hold, hselects⟩

theorem replaced_of_none {gate : Gate} (reference : Candidate → Json) {fields : Json.Members}
    (h : ¬ fields.any gate.selects) : gate.replaced reference fields = fields := by
  rw [replaced]
  refine (List.map_congr_left fun field hfield => ?_).trans (List.map_id fields)
  rw [if_neg fun hselects => h (List.any_eq_true.mpr ⟨field, hfield, hselects⟩)]
  rfl

/-- A message that is no object is replaced as a whole or not at all. -/
theorem rewritten_other (gate : Gate) (reference : Candidate → Json) {message : Bytes}
    (h : ∀ fields, Json.read? message ≠ some (.object fields)) :
    gate.rewritten reference message =
      if gate.exceeds message.length then (reference ⟨"", message, Json.read? message⟩).print
      else message := by
  unfold rewritten
  split
  · next fields heq => exact absurd heq (h fields)
  · rfl

/-- What stands under a key after replacing: what stood there before, or a reference to it. -/
theorem get?_replaced (gate : Gate) (reference : Candidate → Json) (fields : Json.Members)
    (key : String) :
    Json.Members.get? (gate.replaced reference fields) key =
      (Json.Members.get? fields key).map fun value =>
        if gate.selects (key, value) then reference (candidate (key, value)) else value := by
  induction fields with
  | nil => rfl
  | cons field rest ih =>
    rw [Json.Members.get?_eq, Json.Members.get?_eq] at ih ⊢
    obtain ⟨name, value⟩ := field
    rw [replaced, List.map_cons, ← replaced]
    -- replacing keeps the keys, so the first field of this key stays the first
    by_cases hkey : name = key
    · subst hkey
      by_cases hselects : gate.selects (name, value)
      · rw [if_pos hselects, Assoc.find?_cons_self, Assoc.find?_cons_self, Option.map_some,
          if_pos hselects]
      · rw [if_neg hselects, Assoc.find?_cons_self, Assoc.find?_cons_self, Option.map_some,
          if_neg hselects]
    · rw [Assoc.find?_cons_of_ne _ _ hkey]
      by_cases hselects : gate.selects (name, value)
      · rw [if_pos hselects, Assoc.find?_cons_of_ne _ _ hkey]
        exact ih
      · rw [if_neg hselects, Assoc.find?_cons_of_ne _ _ hkey]
        exact ih

/-- A test of the value under a key that no object passes is not passed after objects have been put into
the fields, if it was not passed before. -/
theorem test_replaced (gate : Gate) {reference : Candidate → Json} {fields : Json.Members}
    {key : String} (test : Option Json → Bool)
    (hobject : ∀ members, test (some (.object members)) = false)
    (hreference : ∀ c, ∃ members, reference c = .object members)
    (h : test (Json.Members.get? fields key) = false) :
    test (Json.Members.get? (gate.replaced reference fields) key) = false := by
  rw [get?_replaced]
  cases hvalue : Json.Members.get? fields key with
  | none =>
    rw [hvalue] at h
    exact h
  | some value =>
    rw [hvalue] at h
    rw [Option.map_some]
    split
    · obtain ⟨members, hc⟩ := hreference (candidate (key, value))
      rw [hc]
      exact hobject members
    · exact h

/-- The message in which candidates were replaced is read back as the fields in which they were. -/
theorem read?_rewritten {gate : Gate} {reference : Candidate → Json} {message : Bytes}
    {fields : Json.Members} (hread : Json.read? message = some (.object fields))
    (hwhole : Json.IsWhole (.object fields))
    (hreference : ∀ c ∈ (fields.filter gate.selects).map candidate,
      Json.Nested (Json.maxDepth - 1) (reference c) ∧ Json.IsWhole (reference c)) :
    Json.read? (gate.rewritten reference message) =
      some (.object (gate.replaced reference fields)) := by
  obtain ⟨hkeys, hnested⟩ := Json.field_nested hread
  rw [rewritten, hread]
  simp only
  by_cases hany : fields.any gate.selects
  · rw [if_pos hany]
    -- every field is an old one or a reference, and both nest and print as they should
    refine Json.read?_print (.object (Json.maxDepth - 1) _ ?_ fun field hfield => ?_)
      (.object _ fun field hfield => ?_)
    · rw [keys_replaced]
      exact hkeys
    · rcases mem_replaced hfield with ⟨hold, -⟩ | ⟨old, hold, hselects, -, hvalue⟩
      · exact hnested field hold
      · rw [hvalue]
        exact (hreference _ (candidate_mem hold hselects)).1
    · rcases mem_replaced hfield with ⟨hold, -⟩ | ⟨old, hold, hselects, -, hvalue⟩
      · exact hwhole.member hold
      · rw [hvalue]
        exact (hreference _ (candidate_mem hold hselects)).2
  · rw [if_neg hany, replaced_of_none reference hany, hread]

end Gate

namespace Message

variable {σ γ : Type}

/-! ## Offloading

A backend may do anything with its calls. It is enough that each candidate is taken, and that what was
taken for one stays while the others follow. -/

/-- `Offloads backend world form Stands Ready`: in a state that is `Ready` for candidates, the first of
them is taken and replaced by `form c x` for some `x`. From then on `Stands c x` holds, through all
further offloads. -/
def Offloads (backend : Backend Program) (world : Answering σ) (form : Candidate → γ → Json)
    (Stands : Candidate → γ → σ → Prop) (Ready : List Candidate → σ → Prop) : Prop :=
  ∀ c rest s, Ready (c :: rest) s → ∃ x s',
    (backend.offload c).run world s = (.ok (some (form c x)), s') ∧ Ready rest s' ∧
      Stands c x s' ∧ ∀ d y, Stands d y s → Stands d y s'

section

variable {backend : Backend Program} {world : Answering σ} {form : Candidate → γ → Json}
  {Stands : Candidate → γ → σ → Prop} {Ready : List Candidate → σ → Prop}

/-- All candidates are taken, and what was stored for each stands at the end. -/
theorem run_offloadAll (h : Offloads backend world form Stands Ready)
    (candidates : List Candidate) :
    ∀ s, Ready candidates s → ∃ replies s',
      (offloadAll backend candidates).run world s = (.ok replies, s') ∧ Ready [] s' ∧
        List.Forall₂ (fun c reply => ∃ x, reply = some (form c x) ∧ Stands c x s')
          candidates replies ∧
        ∀ d y, Stands d y s → Stands d y s' := by
  induction candidates with
  | nil => exact fun s hready => ⟨[], s, rfl, hready, .nil, fun _ _ h => h⟩
  | cons c rest ih =>
    intro s hready
    obtain ⟨x, s₁, hrun, hready₁, hstands, hkept⟩ := h c rest s hready
    obtain ⟨replies, s₂, hrest, hready₂, hall, hkept'⟩ := ih s₁ hready₁
    refine ⟨some (form c x) :: replies, s₂, ?_, hready₂,
      .cons ⟨x, rfl, hkept' c x hstands⟩ hall, fun d y hd => hkept' d y (hkept d y hd)⟩
    rw [offloadAll, ← Program.bind_eq, Program.run_bind_of_eq hrun]
    show (Program.bind _ _).run world s₁ = _
    rw [← Program.bind_eq, Program.run_bind_of_eq hrest]
    rfl

/-- Offloading a message replaces all of its candidates where they are taken, and what stood before still
stands. -/
theorem run_offload_kept [Inhabited γ] (h : Offloads backend world form Stands Ready)
    {message : Bytes} {s : σ}
    (hready : Ready ((Gate.mk backend.threshold).candidates message) s) :
    ∃ (x : String → γ) (s' : σ),
      (offload backend message).run world s =
          (.ok ((Gate.mk backend.threshold).rewritten (fun c => form c (x c.fieldPath)) message),
            s') ∧
        Ready [] s' ∧
        (∀ c ∈ (Gate.mk backend.threshold).candidates message, Stands c (x c.fieldPath) s') ∧
        ∀ d y, Stands d y s → Stands d y s' := by
  obtain ⟨replies, s', hrun, hready', hall, hkept⟩ := run_offloadAll h _ s hready
  obtain ⟨x, hreplies, hstands⟩ := exists_by_key Candidate.fieldPath
    (f := fun c x => some (form c x)) (P := fun c x => Stands c x s') hall
    ((Gate.mk backend.threshold).nodup_candidates message)
  refine ⟨x, s', ?_, hready', hstands, hkept⟩
  rw [offload_eq, ← Program.bind_eq, Program.run_bind_of_eq hrun, hreplies]
  show (Except.ok _, s') = _
  rw [assemble_some]

/-- **Offloading a message** succeeds where its candidates are taken, and replaces all of them. -/
theorem run_offload [Inhabited γ] (h : Offloads backend world form Stands Ready) {message : Bytes}
    {s : σ} (hready : Ready ((Gate.mk backend.threshold).candidates message) s) :
    ∃ (x : String → γ) (s' : σ),
      (offload backend message).run world s =
          (.ok ((Gate.mk backend.threshold).rewritten (fun c => form c (x c.fieldPath)) message),
            s') ∧
        Ready [] s' ∧
        ∀ c ∈ (Gate.mk backend.threshold).candidates message, Stands c (x c.fieldPath) s' := by
  obtain ⟨x, s', hrun, hready', hstands, -⟩ := run_offload_kept h hready
  exact ⟨x, s', hrun, hready', hstands⟩

end

/-! ## Resolving

References are followed one after the other in a world that gives back what was taken. Fields that are
no references come through unchanged. -/

/-- A fault if there is one, else a result. -/
def orFault {α : Type} (result : α) : Option Failure → Except Failure α
  | some failure => .error failure
  | none => .ok result

/-- `Restores backend world Steady c value fault`: a value is recognized as a reference, and rehydrating it
in a steady state ends with the fault, or without one with the bytes of the candidate. -/
def Restores (backend : Backend Program) (world : Answering σ) (Steady : σ → Prop)
    (c : Candidate) (value : Json) (fault : Option Failure) : Prop :=
  ∃ r, backend.recognize value = .ok (some r) ∧
    ∀ s, Steady s → ∃ s',
      (backend.rehydrate r).run world s = (orFault c.bytes fault, s') ∧ Steady s'

variable {backend : Backend Program} {world : Answering σ} {Steady : σ → Prop} {gate : Gate}
  {reference : Candidate → Json} {fault : Candidate → Option Failure}

/-- A value whose text is read back is what that text means. -/
theorem valueOf_print {v : Json} (hnested : Json.Nested Json.maxDepth v) (hwhole : Json.IsWhole v) :
    valueOf v.print = v := by
  rw [valueOf, Json.read?_print hnested hwhole]

/-- Resolving fields of which the selected ones were replaced ends with the first fault, or without one
with the fields as they were. Induction on the fields. -/
theorem run_resolveFields {fields : Json.Members}
    (hsmall : ∀ field ∈ fields, gate.selects field = false →
      backend.recognize field.2 = .ok none)
    (hlarge : ∀ field ∈ fields, gate.selects field → Restores backend world Steady
      (Gate.candidate field) (reference (Gate.candidate field)) (fault (Gate.candidate field)))
    (hvalue : ∀ field ∈ fields, valueOf field.2.print = field.2) :
    ∀ s, Steady s → ∃ s',
      (resolveFields backend (gate.replaced reference fields)).run world s =
        (orFault (fields, fields.any gate.selects)
          (((fields.filter gate.selects).map Gate.candidate).findSome? fault), s') ∧ Steady s' := by
  induction fields with
  | nil => exact fun s hs => ⟨s, rfl, hs⟩
  | cons field rest ih =>
    intro s hs
    have ihrest := ih (fun f hf => hsmall f (List.mem_cons_of_mem _ hf))
      (fun f hf => hlarge f (List.mem_cons_of_mem _ hf))
      (fun f hf => hvalue f (List.mem_cons_of_mem _ hf))
    obtain ⟨key, value⟩ := field
    -- a selected field is followed through its reference, any other is left alone
    by_cases hselects : gate.selects (key, value)
    · obtain ⟨r, hrecognize, hrehydrate⟩ := hlarge _ (List.mem_cons_self ..) hselects
      obtain ⟨s₁, hrun, hs₁⟩ := hrehydrate s hs
      rw [List.filter_cons_of_pos hselects, List.map_cons, List.findSome?_cons, List.any_cons,
        hselects, Bool.true_or, Gate.replaced, List.map_cons, if_pos hselects, resolveFields,
        hrecognize]
      simp only
      rw [Program.run_bind_of_eq hrun]
      cases hfault : fault (Gate.candidate (key, value)) with
      | some failure => exact ⟨s₁, rfl, hs₁⟩
      | none =>
        obtain ⟨s₂, hrest, hs₂⟩ := ihrest s₁ hs₁
        refine ⟨s₂, ?_, hs₂⟩
        simp only [orFault]
        rw [← Gate.replaced, Program.run_bind_of_eq hrest]
        cases ((rest.filter gate.selects).map Gate.candidate).findSome? fault with
        | some failure => rfl
        | none =>
          simp only [orFault]
          rw [show (Gate.candidate (key, value)).bytes = value.print from rfl,
            hvalue _ (List.mem_cons_self ..)]
          rfl
    · obtain ⟨s₁, hrest, hs₁⟩ := ihrest s hs
      refine ⟨s₁, ?_, hs₁⟩
      rw [List.filter_cons_of_neg hselects, List.any_cons, Bool.eq_false_iff.mpr hselects,
        Bool.false_or, Gate.replaced, List.map_cons, if_neg hselects, resolveFields,
        hsmall _ (List.mem_cons_self ..) (Bool.eq_false_iff.mpr hselects)]
      simp only
      rw [← Gate.replaced, Program.run_bind_of_eq hrest]
      cases ((rest.filter gate.selects).map Gate.candidate).findSome? fault <;> rfl

/-- **Resolving an object** of which the candidates were replaced ends with the first fault, or without
one with the message as it was, printed anew if anything was replaced. -/
theorem run_resolve_object {message : Bytes} {fields : Json.Members}
    (hread : Json.read? message = some (.object fields)) (hwhole : Json.IsWhole (.object fields))
    (hreference : ∀ c ∈ gate.candidates message,
      Json.Nested (Json.maxDepth - 1) (reference c) ∧ Json.IsWhole (reference c))
    (hplain : backend.recognize (.object (gate.replaced reference fields)) = .ok none)
    (hsmall : ∀ field ∈ fields, gate.selects field = false →
      backend.recognize field.2 = .ok none)
    (hlarge : ∀ c ∈ gate.candidates message,
      Restores backend world Steady c (reference c) (fault c))
    {s : σ} (hs : Steady s) :
    ∃ s', (resolve backend (gate.rewritten reference message)).run world s =
      (orFault (gate.canonical message) ((gate.candidates message).findSome? fault), s') ∧
        Steady s' := by
  obtain ⟨hkeys, hnested⟩ := Json.field_nested hread
  rw [gate.candidates_object hread] at hreference hlarge ⊢
  have hvalue : ∀ field ∈ fields, valueOf field.2.print = field.2 := fun field hfield =>
    valueOf_print ((hnested field hfield).mono (by decide)) (hwhole.member hfield)
  -- what is resolved is the message with the references in it
  have hback := Gate.read?_rewritten hread hwhole hreference
  obtain ⟨s', hrun, hs'⟩ := run_resolveFields hsmall
    (fun field hfield hselects => hlarge _ (Gate.candidate_mem hfield hselects)) hvalue s hs
  refine ⟨s', ?_, hs'⟩
  rw [resolve, hback]
  simp only
  rw [hplain]
  simp only
  rw [Program.run_bind_of_eq hrun]
  cases ((fields.filter gate.selects).map Gate.candidate).findSome? fault with
  | some failure => rfl
  | none =>
    rw [Gate.canonical, Gate.rewritten, hread]
    simp only
    cases hany : fields.any gate.selects with
    | false =>
      simp only [Bool.false_eq_true, if_false]
      rfl
    | true =>
      simp only [if_true]
      rfl

end Message

end Stowage
