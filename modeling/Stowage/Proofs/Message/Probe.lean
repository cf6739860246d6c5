import Stowage.Proofs.Message.Resolution
/-!
# Stowage — looking for references

Whether a message holds references can be told without asking for what stands behind them. Looking and
resolving are two walks over a message, one of which takes a broken reference for a reference and the
other for a failure. `Bare` says that a walk meets neither: `containsReferences_eq_false_iff` for the one
that looks, `Resolution.bare_or_asks` for the one that resolves. `containsReferences_agrees` puts them
side by side, for every backend and whatever it replies.
-/

namespace Stowage.Message

open Dialogue

section

variable {recognize : Json → Except Failure (Option Reference)} {message : Bytes}
  {fields : Json.Members} {field : String × Json}

/-- `Bare recognize message`: neither a message nor one of its fields looks like a reference. -/
def Bare (recognize : Json → Except Failure (Option Reference)) (message : Bytes) : Prop :=
  ∀ value, Json.read? message = some value →
    recognize value = .ok none ∧
      ∀ fields, value = .object fields → ∀ field ∈ fields, recognize field.2 = .ok none

/-- A message that is a reference, or fails to be one, is not bare. -/
theorem not_bare_of_value {value : Json} (hread : Json.read? message = some value)
    (h : recognize value ≠ .ok none) : ¬Bare recognize message :=
  fun hbare => h (hbare value hread).1

/-- A message with a field that is a reference, or fails to be one, is not bare. -/
theorem not_bare_of_field (hread : Json.read? message = some (.object fields)) (hfield : field ∈ fields)
    (h : recognize field.2 ≠ .ok none) : ¬Bare recognize message :=
  fun hbare => h ((hbare _ hread).2 fields rfl field hfield)

/-! ## Looking -/

theorem isReference_eq_false_iff {m : Type → Type} (backend : Backend m) (value : Json) :
    isReference backend value = false ↔ backend.recognize value = .ok none := by
  unfold isReference
  split <;> simp_all

/-- A message is said to hold no references exactly if it is bare. -/
theorem containsReferences_eq_false_iff {m : Type → Type} (backend : Backend m) (message : Bytes) :
    containsReferences backend message = false ↔ Bare backend.recognize message := by
  unfold containsReferences Bare
  cases Json.read? message with
  | none => simp
  | some value =>
    simp only [Bool.or_eq_false_iff, isReference_eq_false_iff, Option.some.injEq, forall_eq']
    cases value with
    | object fields => simp [isReference_eq_false_iff]
    | _ => simp

/-! ## Resolving

A dialogue that asks nothing and does not fail has met no reference. -/

theorem hasReference_eq_false (h : ∀ field ∈ fields, recognize field.2 = .ok none) :
    hasReference recognize fields = false := by
  apply List.any_eq_false.mpr
  intro field hfield
  simp [referenceOf, h field hfield]

theorem Stops.ne_none {value : Json} {log : List Exchange} {failure : Failure}
    (h : Stops recognize value log failure) : recognize value ≠ .ok none := by
  intro hnone
  cases h with
  | unusable h | unanswered h =>
    rw [hnone] at h
    cases h

/-- **Resolving tells bare messages from others**: a bare message is returned as it is, without a question;
with any other message, resolving fails or asks for what stands behind a reference. -/
theorem Resolution.bare_or_asks {log : List Exchange} {result : Except Failure Bytes}
    (h : Resolution recognize message log result) :
    (Bare recognize message ∧ log = [] ∧ result = .ok message) ∨
      (¬Bare recognize message ∧
        ((∃ failure, result = .error failure) ∨ ∃ r reply, ⟨.rehydrate r, reply⟩ ∈ log)) := by
  -- of the ways to resolve only `fields` can go either way; each of the others is one or the other
  cases h with
  | notJson hread =>
    refine .inl ⟨fun value hvalue => ?_, rfl, rfl⟩
    rw [hread] at hvalue
    cases hvalue
  | @noObject value hread hvalue hobject =>
    refine .inl ⟨fun other hother => ?_, rfl, rfl⟩
    rw [hread] at hother
    cases hother
    exact ⟨hvalue, fun fields heq => absurd heq (hobject fields)⟩
  | unusable hread hvalue =>
    exact .inr ⟨not_bare_of_value hread (by rw [hvalue]; nofun), .inl ⟨_, rfl⟩⟩
  | misplaced hread hvalue hpath =>
    exact .inr ⟨not_bare_of_value hread (by rw [hvalue]; nofun), .inl ⟨_, rfl⟩⟩
  | whole hread hvalue hpath =>
    exact .inr ⟨not_bare_of_value hread (by rw [hvalue]; nofun),
      .inr ⟨_, _, List.mem_singleton_self _⟩⟩
  | @fields fields hread hvalue husable payload value hmeans =>
    by_cases hall : ∀ field ∈ fields, recognize field.2 = .ok none
    · have hnone := hasReference_eq_false hall
      refine .inl ⟨fun value hother => ?_, followed_eq_nil hnone, by simp [hnone]⟩
      rw [hread] at hother
      cases hother
      refine ⟨hvalue, fun other heq => ?_⟩
      cases heq
      exact hall
    · -- all fields are usable, so one that is not bare is a reference that is asked for
      obtain ⟨field, hfield, hne⟩ : ∃ field ∈ fields, recognize field.2 ≠ .ok none := by
        simpa using hall
      obtain ⟨found, hfound⟩ := husable field hfield
      cases found with
      | none => exact absurd hfound hne
      | some r =>
        exact .inr ⟨not_bare_of_field hread hfield hne,
          .inr ⟨r, _, mem_followed.mpr ⟨field, hfield, by rw [referenceOf, hfound], rfl⟩⟩⟩
  | @stopped before after field log failure hread hvalue husable payload hstop =>
    have hfield : field ∈ before ++ field :: after :=
      List.mem_append_right before (List.mem_cons_self ..)
    exact .inr ⟨not_bare_of_field hread hfield hstop.ne_none, .inl ⟨_, rfl⟩⟩

/-- A bare message is resolved to itself, and nothing is asked. -/
theorem Bare.resolution (h : Bare recognize message) :
    Resolution recognize message [] (.ok message) := by
  cases hread : Json.read? message with
  | none => exact .notJson hread
  | some value =>
    obtain ⟨hvalue, hfields⟩ := h value hread
    by_cases hobject : ∃ fields, value = .object fields
    · obtain ⟨fields, rfl⟩ := hobject
      have hall := hfields fields rfl
      have hnone := hasReference_eq_false hall
      have hdone := Resolution.fields hread hvalue (fun field hfield => ⟨none, hall field hfield⟩)
        (fun _ => []) _ fun _ => means_iff.mpr rfl
      rwa [followed_eq_nil hnone, hnone] at hdone
    · exact .noObject hread hvalue fun fields heq => hobject ⟨fields, heq⟩

end

/-! ## Side by side -/

/-- A bare message is returned by every backend, in its own monad. -/
theorem resolve_of_bare {m : Type → Type} [Monad m] [LawfulMonad m] (backend : Backend m)
    {message : Bytes} (h : Bare backend.recognize message) :
    resolve backend message = pure (.ok message) := by
  have hgoes := goes_of_resolution h.resolution
  rw [resolve_answered, hgoes.eq_done]
  rfl

/-- **Looking for references agrees with resolving.** Resolving a message with any backend is a dialogue that
comes to an end whatever the replies. A message is said to hold no references exactly if it is returned
as it is without a question, in the monad of the backend too, and to hold some exactly if resolving it
fails or asks for what stands behind one. -/
theorem containsReferences_agrees {m : Type → Type} [Monad m] [LawfulMonad m] (backend : Backend m)
    (message : Bytes) :
    resolve backend message = (resolve backend.asking message).answered backend ∧
      (∀ answer, ∃ log result, Goes (resolve backend.asking message) log result ∧
        Follows answer log) ∧
      (containsReferences backend message = false → resolve backend message = pure (.ok message)) ∧
      ∀ log result, Goes (resolve backend.asking message) log result →
        (containsReferences backend message = false ↔ log = [] ∧ result = .ok message) ∧
        (containsReferences backend message = true ↔
          (∃ failure, result = .error failure) ∨ ∃ r reply, ⟨.rehydrate r, reply⟩ ∈ log) := by
  have hlooks := containsReferences_eq_false_iff backend message
  refine ⟨resolve_answered backend message, fun answer => exists_goes _ answer,
    fun hfalse => resolve_of_bare backend (hlooks.mp hfalse), fun log result hgoes => ?_⟩
  rcases (resolution_of_goes hgoes).bare_or_asks with ⟨hbare, rfl, rfl⟩ | ⟨hbare, hasks⟩
  · have hfalse := hlooks.mpr hbare
    -- a bare message is neither a failure nor a reference that was asked for
    refine ⟨iff_of_true hfalse ⟨rfl, rfl⟩, iff_of_false (by rw [hfalse]; decide) ?_⟩
    rintro (⟨failure, heq⟩ | ⟨r, reply, hmem⟩)
    · cases heq
    · cases hmem
  -- the rest are failures or ask for a reference, so they are no silent success
  · have htrue : containsReferences backend message = true :=
      (Bool.not_eq_false _).mp fun hfalse => hbare (hlooks.mp hfalse)
    refine ⟨iff_of_false (by rw [htrue]; decide) ?_, iff_of_true htrue hasks⟩
    rintro ⟨rfl, rfl⟩
    rcases hasks with ⟨failure, heq⟩ | ⟨r, reply, hmem⟩
    · cases heq
    · cases hmem

/-- A field that is a text is a reference in `echo`, and is asked for; the answer is not even JSON. -/
theorem containsReferences_agrees_echo :
    LawfulMonad.{0, 0} Id ∧
      Goes (resolve echo.asking (Json.object [("a", .string "x")]).print)
        [⟨.rehydrate ⟨"x", 1, ""⟩, .ok [120]⟩]
        (.ok (Json.object [("a", .string "x")]).print) ∧
      containsReferences echo (Json.object [("a", .string "x")]).print = true := by
  have hlawful : LawfulMonad.{0, 0} Id := inferInstance
  have hmeans : Means [120] (.string "x") :=
    .text (Option.isNone_iff_eq_none.mp (by decide +kernel))
  have hgoes := goes_echo "a" "x" hmeans
  obtain ⟨-, -, -, hagrees⟩ := containsReferences_agrees echo (Json.object [("a", .string "x")]).print
  exact ⟨hlawful, hgoes, (hagrees _ _ hgoes).2.mpr (.inr ⟨_, _, List.mem_singleton_self _⟩)⟩

end Stowage.Message
