import Mathlib.Data.List.Basic
import Mathlib.Logic.Function.Basic
import Stowage.Proofs.Json.Nesting
import Stowage.Proofs.Json.RoundTrip
import Stowage.Proofs.Message.Dialogue
/-!
# Stowage — what resolving asks and what comes of the replies

For any backend: any recognition of references, and any replies to the questions for what they stand
for. `Resolution` lists how resolving a message can go, with the questions that are asked on the way;
`resolve_resolution` says that it goes so, and in no other way. What a payload means is said apart from
the function that finds it out: it is the value that its bytes spell, or their text (`Means`). The fields
of an object are gone through in order, up to the first one that cannot be followed: `Through` satisfies
the equations of the recursion (`through_cons_none`, `through_cons_some`, `through_cons_error`), and is
what comes of it (`goes_resolveFields`).
-/

namespace Stowage.Message

open Dialogue

/-- `Means payload value`: what a payload stands for. Bytes that are JSON mean the value that they spell,
and other bytes mean a string, in which every ill-formed sequence is replaced by U+FFFD. -/
inductive Means (payload : Bytes) : Json → Prop where
  | json {value : Json} (hread : Json.read? payload = some value) : Means payload value
  | text (hread : Json.read? payload = none) : Means payload (.string (Utf8.decodeLossy payload))

/-- Resolving finds out what a payload means, and a payload means nothing else. -/
theorem means_iff {payload : Bytes} {value : Json} :
    Means payload value ↔ value = valueOf payload := by
  rw [valueOf]
  constructor
  · intro h
    cases h with
    | json hread => rw [hread]
    | text hread => rw [hread]
  · rintro rfl
    cases hread : Json.read? payload with
    | some value => exact .json hread
    | none => exact .text hread

section

variable (recognize : Json → Except Failure (Option Reference))

/-- The reference that a value is recognized as. -/
def referenceOf (value : Json) : Option Reference :=
  match recognize value with
  | .ok r => r
  | .error _ => none

/-- No field looks like a reference without being a usable one. -/
def Usable (fields : Json.Members) : Prop := ∀ field ∈ fields, ∃ r, recognize field.2 = .ok r

/-- The questions for what stands behind the references among fields, each answered with a payload. -/
def followed (payload : String → Bytes) (fields : Json.Members) : List Exchange :=
  fields.filterMap fun field =>
    (referenceOf recognize field.2).map fun r => ⟨.rehydrate r, .ok (payload field.1)⟩

/-- Fields with other values in the place of references. -/
def restored (value : String → Json) (fields : Json.Members) : Json.Members :=
  fields.map fun field =>
    (field.1, if (referenceOf recognize field.2).isSome then value field.1 else field.2)

/-- Whether a reference is among fields. -/
def hasReference (fields : Json.Members) : Bool :=
  fields.any fun field => (referenceOf recognize field.2).isSome

/-- `Stops recognize value log failure`: a value is no usable reference, or what it stands for is asked for
in vain. -/
inductive Stops (value : Json) : List Exchange → Failure → Prop where
  | unusable {failure : Failure} (h : recognize value = .error failure) : Stops value [] failure
  | unanswered {r : Reference} {failure : Failure} (h : recognize value = .ok (some r)) :
      Stops value [⟨.rehydrate r, .error failure⟩] failure

/-- `Through recognize fields log result`: the fields of an object are gone through in order, to the end,
or to the first one that cannot be followed. At the end, they come with whether any was replaced. -/
inductive Through (fields : Json.Members) :
    List Exchange → Except Failure (Json.Members × Bool) → Prop where
  | all (h : Usable recognize fields) (payload : String → Bytes) :
      Through fields (followed recognize payload fields)
        (.ok (restored recognize (fun key => valueOf (payload key)) fields,
          hasReference recognize fields))
  | stopped {before after : Json.Members} {field : String × Json} {log : List Exchange}
      {failure : Failure} (hsplit : fields = before ++ field :: after)
      (h : Usable recognize before) (payload : String → Bytes)
      (hstop : Stops recognize field.2 log failure) :
      Through fields (followed recognize payload before ++ log) (.error failure)

/-- `Resolution recognize message log result`: resolving a message asks the questions of a log, gets its
replies, and ends with a result. -/
inductive Resolution (message : Bytes) : List Exchange → Except Failure Bytes → Prop where
  | notJson (hread : Json.read? message = none) : Resolution message [] (.ok message)
  | unusable {value : Json} {failure : Failure} (hread : Json.read? message = some value)
      (h : recognize value = .error failure) : Resolution message [] (.error failure)
  | misplaced {value : Json} {r : Reference} (hread : Json.read? message = some value)
      (h : recognize value = .ok (some r)) (hpath : r.fieldPath ≠ "") :
      Resolution message [] (.error (.invalidReference (.topLevelField r.id r.fieldPath)))
  | whole {value : Json} {r : Reference} (hread : Json.read? message = some value)
      (h : recognize value = .ok (some r)) (hpath : r.fieldPath = "")
      (reply : Except Failure Bytes) : Resolution message [⟨.rehydrate r, reply⟩] reply
  | noObject {value : Json} (hread : Json.read? message = some value)
      (h : recognize value = .ok none) (hobject : ∀ fields, value ≠ .object fields) :
      Resolution message [] (.ok message)
  | fields {fields : Json.Members} (hread : Json.read? message = some (.object fields))
      (h : recognize (.object fields) = .ok none) (hall : Usable recognize fields)
      (payload : String → Bytes) (value : String → Json)
      (hmeans : ∀ key, Means (payload key) (value key)) :
      Resolution message (followed recognize payload fields)
        (.ok (if hasReference recognize fields then
          (Json.object (restored recognize value fields)).print else message))
  | stopped {before after : Json.Members} {field : String × Json} {log : List Exchange}
      {failure : Failure} (hread : Json.read? message = some (.object (before ++ field :: after)))
      (h : recognize (.object (before ++ field :: after)) = .ok none)
      (hall : Usable recognize before) (payload : String → Bytes)
      (hstop : Stops recognize field.2 log failure) :
      Resolution message (followed recognize payload before ++ log) (.error failure)

end

section

variable {recognize : Json → Except Failure (Option Reference)} {key : String} {value : Json}
  {rest : Json.Members} {payload : String → Bytes} {meaning : String → Json}

theorem followed_cons_none (h : recognize value = .ok none) :
    followed recognize payload ((key, value) :: rest) = followed recognize payload rest := by
  simp [followed, referenceOf, h]

theorem followed_cons_some {r : Reference} (h : recognize value = .ok (some r)) :
    followed recognize payload ((key, value) :: rest) =
      ⟨.rehydrate r, .ok (payload key)⟩ :: followed recognize payload rest := by
  simp [followed, referenceOf, h]

theorem restored_cons_none (h : recognize value = .ok none) :
    restored recognize meaning ((key, value) :: rest) =
      (key, value) :: restored recognize meaning rest := by
  simp [restored, referenceOf, h]

theorem restored_cons_some {r : Reference} (h : recognize value = .ok (some r)) :
    restored recognize meaning ((key, value) :: rest) =
      (key, meaning key) :: restored recognize meaning rest := by
  simp [restored, referenceOf, h]

theorem hasReference_cons_none (h : recognize value = .ok none) :
    hasReference recognize ((key, value) :: rest) = hasReference recognize rest := by
  simp [hasReference, referenceOf, h]

theorem hasReference_cons_some {r : Reference} (h : recognize value = .ok (some r)) :
    hasReference recognize ((key, value) :: rest) = true := by
  simp [hasReference, referenceOf, h]

theorem mem_followed {fields : Json.Members} {r : Reference} {bytes : Bytes} :
    (⟨.rehydrate r, .ok bytes⟩ : Exchange) ∈ followed recognize payload fields ↔
      ∃ field ∈ fields, referenceOf recognize field.2 = some r ∧ payload field.1 = bytes := by
  rw [followed, List.mem_filterMap]
  refine exists_congr fun field => and_congr_right fun _ => ?_
  rw [Option.map_eq_some_iff]
  constructor
  · rintro ⟨r', hr, heq⟩
    cases heq
    exact ⟨hr, rfl⟩
  · rintro ⟨hr, rfl⟩
    exact ⟨r, hr, rfl⟩

/-- Where no field is a reference, nothing is asked for. -/
theorem followed_eq_nil {fields : Json.Members} (h : hasReference recognize fields = false) :
    followed recognize payload fields = [] := by
  refine List.filterMap_eq_nil_iff.mpr fun field hfield => ?_
  have hnone : ¬ (referenceOf recognize field.2).isSome = true :=
    List.any_eq_false.mp h field hfield
  rw [Option.not_isSome_iff_eq_none.mp hnone, Option.map_none]

theorem usable_cons {r : Option Reference} (h : recognize value = .ok r) :
    Usable recognize ((key, value) :: rest) ↔ Usable recognize rest := by
  simp [Usable, h]

/-- Payloads of other fields do not matter. -/
theorem followed_congr {fields : Json.Members} {payload payload' : String → Bytes}
    (h : ∀ field ∈ fields, payload field.1 = payload' field.1) :
    followed recognize payload fields = followed recognize payload' fields :=
  List.filterMap_congr fun field hfield => by rw [h field hfield]

theorem restored_congr {fields : Json.Members} {payload payload' : String → Bytes}
    (h : ∀ field ∈ fields, payload field.1 = payload' field.1) :
    restored recognize (fun key => valueOf (payload key)) fields =
      restored recognize (fun key => valueOf (payload' key)) fields :=
  List.map_congr_left fun field hfield => by simp only [h field hfield]

end

/-! ## One field more

Fields are gone through one by one. What is already there stays in front, and whether a reference was
among it is kept beside. -/

/-- What becomes of the fields after one that stays, or has got another value. -/
def prepend (field : String × Json) (resolved : Bool) (rest : Json.Members × Bool) :
    Json.Members × Bool :=
  (field :: rest.1, resolved || rest.2)

section

variable {recognize : Json → Except Failure (Option Reference)} {key : String} {value : Json}
  {rest : Json.Members} {log : List Exchange} {result : Except Failure (Json.Members × Bool)}

/-- Without fields nothing is asked, and no reference was there. -/
theorem through_nil : Through recognize [] log result ↔ log = [] ∧ result = .ok ([], false) := by
  constructor
  · intro h
    cases h with
    | all h payload => exact ⟨rfl, rfl⟩
    | @stopped before after field log failure hsplit => cases before <;> cases hsplit
  · rintro ⟨rfl, rfl⟩
    exact .all (fun _ h => absurd h List.not_mem_nil) fun _ => []

theorem through_first {field : String × Json} {failure : Failure}
    (h : Stops recognize field.2 log failure) :
    Through recognize (field :: rest) log (.error failure) :=
  Through.stopped (List.nil_append (field :: rest)).symm (fun _ h => absurd h List.not_mem_nil)
    (fun _ => []) h

/-- A field that cannot be recognized is a failure, before anything is asked. -/
theorem through_cons_error {failure : Failure} (hvalue : recognize value = .error failure) :
    Through recognize ((key, value) :: rest) log result ↔ log = [] ∧ result = .error failure := by
  constructor
  · intro h
    cases h with
    -- it is no field that is usable, so it is the one where the gathering stops
    | all h payload =>
      obtain ⟨r, hr⟩ := h _ (List.mem_cons_self ..)
      rw [hvalue] at hr
      cases hr
    | @stopped before after field log failure' hsplit h payload hstop =>
      cases before with
      | nil =>
        cases hsplit
        cases hstop with
        | unusable h =>
          rw [hvalue] at h
          cases h
          exact ⟨rfl, rfl⟩
        | unanswered h =>
          rw [hvalue] at h
          cases h
      | cons first before =>
        -- were an earlier field the first, this one would be usable
        cases hsplit
        obtain ⟨r, hr⟩ := h _ (List.mem_cons_self ..)
        rw [hvalue] at hr
        cases hr
  · rintro ⟨rfl, rfl⟩
    exact through_first (.unusable hvalue)

theorem through_cons_none (hvalue : recognize value = .ok none) :
    Through recognize ((key, value) :: rest) log result ↔
      ∃ result', Through recognize rest log result' ∧
        result = result'.map (prepend (key, value) false) := by
  constructor
  · intro h
    cases h with
    | all h payload =>
      rw [followed_cons_none hvalue, restored_cons_none hvalue, hasReference_cons_none hvalue]
      exact ⟨_, .all ((usable_cons hvalue).mp h) payload, rfl⟩
    | @stopped before after field log failure hsplit h payload hstop =>
      cases before with
      | nil =>
        cases hsplit
        cases hstop with
        | unusable h | unanswered h =>
          rw [hvalue] at h
          cases h
      | cons first before =>
        -- the field that stops is one of the rest
        cases hsplit
        rw [followed_cons_none hvalue]
        exact ⟨.error failure, .stopped rfl ((usable_cons hvalue).mp h) payload hstop, rfl⟩
  · rintro ⟨result', h, rfl⟩
    cases h with
    | all h payload =>
      have husable : Usable recognize ((key, value) :: rest) := (usable_cons hvalue).mpr h
      have hall := Through.all husable payload
      rwa [followed_cons_none hvalue, restored_cons_none hvalue,
        hasReference_cons_none hvalue] at hall
    | @stopped before after field log failure hsplit h payload hstop =>
      subst hsplit
      have husable : Usable recognize ((key, value) :: before) := (usable_cons hvalue).mpr h
      have hstopped : Through recognize ((key, value) :: (before ++ field :: after)) _ _ :=
        .stopped rfl husable payload hstop
      rw [followed_cons_none hvalue] at hstopped
      exact hstopped

/-- Payloads for other fields than one with a new key, together with a payload for that one. -/
theorem exists_payload (payload : String → Bytes) (bytes : Bytes)
    (hnew : key ∉ rest.map Prod.fst) :
    ∃ payload' : String → Bytes, payload' key = bytes ∧
      ∀ field ∈ rest, payload field.1 = payload' field.1 := by
  refine ⟨Function.update payload key bytes, Function.update_self .., fun field hfield => ?_⟩
  refine (Function.update_of_ne (fun heq => ?_) _ _).symm
  exact hnew (List.mem_map.mpr ⟨field, hfield, heq⟩)

theorem through_cons_some {r : Reference} (hvalue : recognize value = .ok (some r))
    (hnew : key ∉ rest.map Prod.fst) :
    Through recognize ((key, value) :: rest) log result ↔
      (∃ failure, log = [⟨.rehydrate r, .error failure⟩] ∧ result = .error failure) ∨
        ∃ bytes log' result', log = ⟨.rehydrate r, .ok bytes⟩ :: log' ∧
          Through recognize rest log' result' ∧
          result = result'.map (prepend (key, valueOf bytes) true) := by
  constructor
  · intro h
    cases h with
    | all h payload =>
      rw [followed_cons_some hvalue, restored_cons_some hvalue, hasReference_cons_some hvalue]
      exact .inr ⟨payload key, _, _, rfl, .all ((usable_cons hvalue).mp h) payload, rfl⟩
    | @stopped before after field log failure hsplit h payload hstop =>
      cases before with
      | nil =>
        cases hsplit
        cases hstop with
        | unusable h =>
          rw [hvalue] at h
          cases h
        | unanswered h =>
          rw [hvalue] at h
          cases h
          exact .inl ⟨failure, rfl, rfl⟩
      | cons first before =>
        cases hsplit
        rw [followed_cons_some hvalue, List.cons_append]
        exact .inr ⟨payload key, _, .error failure, rfl,
          .stopped rfl ((usable_cons hvalue).mp h) payload hstop, rfl⟩
  · rintro (⟨failure, rfl, rfl⟩ | ⟨bytes, log', result', rfl, h, rfl⟩)
    · exact through_first (.unanswered hvalue)
    -- a key comes once, so the payload of this field can be put beside those of the rest
    · cases h with
      | all h payload =>
        obtain ⟨payload', rfl, hsame⟩ := exists_payload payload bytes hnew
        have husable : Usable recognize ((key, value) :: rest) := (usable_cons hvalue).mpr h
        have hall := Through.all husable payload'
        rw [followed_cons_some hvalue, restored_cons_some hvalue, hasReference_cons_some hvalue,
          ← followed_congr hsame, ← restored_congr hsame] at hall
        exact hall
      | @stopped before after field log failure hsplit h payload hstop =>
        subst hsplit
        obtain ⟨payload', rfl, hsame⟩ := exists_payload payload bytes hnew
        have hbefore : ∀ f ∈ before, payload f.1 = payload' f.1 :=
          fun f hf => hsame f (List.mem_append_left _ hf)
        have husable : Usable recognize ((key, value) :: before) := (usable_cons hvalue).mpr h
        have hstopped : Through recognize ((key, value) :: (before ++ field :: after)) _ _ :=
          .stopped rfl husable payload' hstop
        rw [followed_cons_some hvalue, ← followed_congr hbefore] at hstopped
        exact hstopped

end

/-! ## The fields -/

section

variable {m : Type → Type} {backend : Backend m} {key : String} {value : Json}
  {rest : Json.Members} {log : List Exchange}

theorem goes_resolveFields_none (h : backend.recognize value = .ok none)
    {result : Except Failure (Json.Members × Bool)} :
    Goes (resolveFields backend.asking ((key, value) :: rest)) log result ↔
      ∃ result', Goes (resolveFields backend.asking rest) log result' ∧
        result = result'.map (prepend (key, value) false) := by
  have hrecognize : backend.asking.recognize value = .ok none := h
  rw [resolveFields, hrecognize]
  simp only
  refine goes_bind_of_done (Except.map (prepend (key, value) false)) ?_
  intro result'
  cases result' <;> rfl

theorem goes_resolveFields_some {r : Reference} (h : backend.recognize value = .ok (some r))
    {result : Except Failure (Json.Members × Bool)} :
    Goes (resolveFields backend.asking ((key, value) :: rest)) log result ↔
      (∃ failure, log = [⟨.rehydrate r, .error failure⟩] ∧ result = .error failure) ∨
        ∃ bytes log' result', log = ⟨.rehydrate r, .ok bytes⟩ :: log' ∧
          Goes (resolveFields backend.asking rest) log' result' ∧
          result = result'.map (prepend (key, valueOf bytes) true) := by
  have hrecognize : backend.asking.recognize value = .ok (some r) := h
  rw [resolveFields, hrecognize]
  refine goes_ask.trans ?_
  constructor
  · rintro ⟨reply, log', rfl, hgoes⟩
    cases reply with
    | error failure =>
      obtain ⟨rfl, rfl⟩ := goes_done.mp hgoes
      exact .inl ⟨failure, rfl, rfl⟩
    | ok bytes =>
      -- what is done with the payload asks nothing more about this field
      obtain ⟨result', hrest, hresult⟩ :=
        (goes_bind_of_done (Except.map (prepend (key, valueOf bytes) true))
          fun done => by cases done <;> rfl).mp hgoes
      exact .inr ⟨bytes, log', result', rfl, hrest, hresult⟩
  · rintro (⟨failure, rfl, rfl⟩ | ⟨bytes, log', result', rfl, hrest, hresult⟩)
    · exact ⟨.error failure, [], rfl, .done _⟩
    · refine ⟨.ok bytes, log', rfl, ?_⟩
      refine (goes_bind_of_done (Except.map (prepend (key, valueOf bytes) true)) ?_).mpr
        ⟨result', hrest, hresult⟩
      intro done
      cases done <;> rfl

/-- The fields of an object are gone through in the way that is described. Induction on the fields, of
which each is one case of the recursion. -/
theorem goes_resolveFields {fields : Json.Members} (hkeys : (Json.Members.keys fields).Nodup)
    {result : Except Failure (Json.Members × Bool)} :
    Goes (resolveFields backend.asking fields) log result ↔
      Through backend.recognize fields log result := by
  induction fields generalizing log result with
  | nil => exact goes_done.trans through_nil.symm
  | cons field rest ih =>
    obtain ⟨key, value⟩ := field
    rw [Json.Members.keys, List.map_cons, List.nodup_cons] at hkeys
    obtain ⟨hnew, hrest⟩ := hkeys
    -- the rest is gathered only after a field that is bare or was answered
    cases hvalue : backend.recognize value with
    | error failure =>
      have hrecognize : backend.asking.recognize value = .error failure := hvalue
      rw [resolveFields, hrecognize, through_cons_error hvalue]
      exact goes_done
    | ok found =>
      cases found with
      | none =>
        rw [goes_resolveFields_none hvalue, through_cons_none hvalue]
        simp only [ih hrest]
      | some r =>
        rw [goes_resolveFields_some hvalue, through_cons_some hvalue hnew]
        simp only [ih hrest]

end

/-! ## Messages

A message is a reference itself, an object with fields, or neither. The first of these that applies
decides. -/

section

variable {m : Type → Type} {backend : Backend m}

theorem finished_restored {recognize : Json → Except Failure (Option Reference)} {message : Bytes}
    {meaning : String → Json} {fields : Json.Members} :
    finished message (.ok (restored recognize meaning fields, hasReference recognize fields)) =
      .ok (if hasReference recognize fields then
        (Json.object (restored recognize meaning fields)).print else message) :=
  rfl

theorem resolution_of_goes {message : Bytes} {log : List Exchange} {result : Except Failure Bytes}
    (h : Goes (resolve backend.asking message) log result) :
    Resolution backend.recognize message log result := by
  have hrecognize : backend.asking.recognize = backend.recognize := rfl
  unfold resolve at h
  rw [hrecognize] at h
  cases hread : Json.read? message with
  | none =>
    rw [hread] at h
    obtain ⟨rfl, rfl⟩ := goes_done.mp h
    exact .notJson hread
  | some value =>
    rw [hread] at h
    simp only at h
    cases hvalue : backend.recognize value with
    | error failure =>
      rw [hvalue] at h
      obtain ⟨rfl, rfl⟩ := goes_done.mp h
      exact .unusable hread hvalue
    | ok found =>
      cases found with
      | some r =>
        rw [hvalue] at h
        simp only at h
        split at h
        · next hempty =>
          obtain ⟨reply, rest, rfl, hrest⟩ := goes_ask.mp h
          obtain ⟨rfl, rfl⟩ := goes_done.mp hrest
          exact .whole hread hvalue (String.isEmpty_iff.mp hempty) result
        · next hpath =>
          obtain ⟨rfl, rfl⟩ := goes_done.mp h
          exact .misplaced hread hvalue fun heq => hpath (String.isEmpty_iff.mpr heq)
      | none =>
        rw [hvalue] at h
        simp only at h
        by_cases hobject : ∃ fields, value = .object fields
        · obtain ⟨fields, rfl⟩ := hobject
          have hkeys := (Json.field_nested hread).1
          obtain ⟨done, hgoes, rfl⟩ := (goes_bind_of_done (finished message) finish_eq).mp h
          cases (goes_resolveFields hkeys).mp hgoes with
          | all hall payload =>
            rw [finished_restored]
            exact .fields hread hvalue hall payload _ fun _ => means_iff.mpr rfl
          | stopped hsplit hall payload hstop =>
            subst hsplit
            exact .stopped hread hvalue hall payload hstop
        -- what is no object is left as it is
        · have hend : log = [] ∧ result = .ok message := by
            cases value with
            | object fields => exact absurd ⟨fields, rfl⟩ hobject
            | _ => exact goes_done.mp h
          obtain ⟨rfl, rfl⟩ := hend
          exact .noObject hread hvalue fun fields heq => hobject ⟨fields, heq⟩

theorem goes_of_resolution {message : Bytes} {log : List Exchange} {result : Except Failure Bytes}
    (h : Resolution backend.recognize message log result) :
    Goes (resolve backend.asking message) log result := by
  have hrecognize : backend.asking.recognize = backend.recognize := rfl
  unfold resolve
  rw [hrecognize]
  cases h with
  | notJson hread =>
    rw [hread]
    exact .done _
  | unusable hread hvalue =>
    rw [hread]
    simp only
    rw [hvalue]
    exact .done _
  | misplaced hread hvalue hpath =>
    rw [hread]
    simp only
    rw [hvalue]
    simp only
    rw [if_neg fun hempty => hpath (String.isEmpty_iff.mp hempty)]
    exact .done _
  | whole hread hvalue hpath reply =>
    rw [hread]
    simp only
    rw [hvalue]
    simp only
    rw [if_pos (String.isEmpty_iff.mpr hpath)]
    exact .ask (.done _)
  | @noObject value hread hvalue hobject =>
    rw [hread]
    simp only
    rw [hvalue]
    cases value with
    | object fields => exact absurd rfl (hobject fields)
    | _ => exact .done _
  | fields hread hvalue hall payload value hmeans =>
    -- what a payload means is what resolving makes of it
    obtain rfl : value = fun key => valueOf (payload key) :=
      funext fun key => means_iff.mp (hmeans key)
    have hkeys := (Json.field_nested hread).1
    rw [hread]
    simp only
    rw [hvalue]
    refine (goes_bind_of_done (finished message) finish_eq).mpr ⟨_, ?_, finished_restored.symm⟩
    exact (goes_resolveFields hkeys).mpr (.all hall payload)
  | stopped hread hvalue hall payload hstop =>
    have hkeys := (Json.field_nested hread).1
    rw [hread]
    simp only
    rw [hvalue]
    refine (goes_bind_of_done (finished message) finish_eq).mpr ⟨.error _, ?_, rfl⟩
    exact (goes_resolveFields hkeys).mpr (.stopped rfl hall payload hstop)

/-- **Resolving a message** with any backend is a dialogue that comes to an end whatever the replies, and
the ways in which it can go are those of `Resolution`. -/
theorem resolve_resolution [Monad m] [LawfulMonad m] (backend : Backend m) (message : Bytes) :
    resolve backend message = (resolve backend.asking message).answered backend ∧
      (∀ answer, ∃ log result, Goes (resolve backend.asking message) log result ∧
        Follows answer log) ∧
      ∀ log result, Goes (resolve backend.asking message) log result ↔
        Resolution backend.recognize message log result :=
  ⟨resolve_answered backend message, fun answer => exists_goes _ answer,
    fun _ _ => ⟨resolution_of_goes, goes_of_resolution⟩⟩

end

/-- Backend that takes every text for the id of a reference to itself. -/
def echo : Backend Id where
  name := "echo"
  threshold := 0
  offload _ := .ok none
  recognize
    | .string s => .ok (some ⟨s, s.length, ""⟩)
    | _ => .ok none
  rehydrate r := .ok (utf8 r.id)

/-- An object of one text is what its own text is read as. -/
theorem read?_of_text (key text : String) :
    Json.read? (Json.object [(key, .string text)]).print = some (.object [(key, .string text)]) := by
  refine Json.read?_print (.object _ _ (List.pairwise_singleton _ _) ?_) (.object _ ?_)
  · rw [List.forall_mem_singleton]
    exact .string _ _
  · rw [List.forall_mem_singleton]
    exact .string _

/-- In `echo` such an object asks for its text, and whatever the payload means takes the place of that. -/
theorem goes_echo (key text : String) {payload : Bytes} {value : Json} (hmeans : Means payload value) :
    Goes (resolve echo.asking (Json.object [(key, .string text)]).print)
      [⟨.rehydrate ⟨text, text.length, ""⟩, .ok payload⟩] (.ok (Json.object [(key, value)]).print) := by
  have husable : Usable echo.recognize [(key, .string text)] := by
    rw [Usable, List.forall_mem_singleton]
    exact ⟨_, rfl⟩
  exact goes_of_resolution (.fields (read?_of_text key text) rfl husable (fun _ => payload)
    (fun _ => value) fun _ => hmeans)

/-- Two of three fields are texts, each of which stands for itself in `echo`. With other payloads they
become what these mean: the one a number, the other a string, since its payload is not even UTF-8. -/
theorem resolve_resolution_echo :
    LawfulMonad.{0, 0} Id ∧
      resolve echo (Json.object [("a", .string "x"), ("b", .string "y"), ("c", .null)]).print =
        (resolve echo.asking
          (Json.object [("a", .string "x"), ("b", .string "y"), ("c", .null)]).print).answered echo ∧
      Goes (resolve echo.asking
          (Json.object [("a", .string "x"), ("b", .string "y"), ("c", .null)]).print)
        [⟨.rehydrate ⟨"x", 1, ""⟩, .ok [50]⟩, ⟨.rehydrate ⟨"y", 1, ""⟩, .ok [255]⟩]
        (.ok (Json.object
          [("a", .number (.int 2)), ("b", .string "\uFFFD"), ("c", .null)]).print) := by
  have hlawful : LawfulMonad.{0, 0} Id := inferInstance
  let fields : Json.Members := [("a", .string "x"), ("b", .string "y"), ("c", .null)]
  have hread : Json.read? (Json.object fields).print = some (.object fields) := by
    refine Json.read?_print (.object _ _ (by decide) ?_) (.object _ ?_)
    · rw [List.forall_mem_cons, List.forall_mem_cons, List.forall_mem_singleton]
      exact ⟨.string _ _, .string _ _, .null _⟩
    · rw [List.forall_mem_cons, List.forall_mem_cons, List.forall_mem_singleton]
      exact ⟨.string _, .string _, .null⟩
  have husable : Usable echo.recognize fields := by
    rw [Usable, List.forall_mem_cons, List.forall_mem_cons, List.forall_mem_singleton]
    exact ⟨⟨_, rfl⟩, ⟨_, rfl⟩, ⟨_, rfl⟩⟩
  let payload : String → Bytes := fun key => if key = "a" then [50] else [255]
  let value : String → Json := fun key => if key = "a" then .number (.int 2) else .string "\uFFFD"
  -- the first payload is JSON; the second is no UTF-8 and comes out as a string
  have hmeans : ∀ key, Means (payload key) (value key) := by
    have htwo : Means [50] (.number (.int 2)) :=
      .json (Json.read?_print (.number _ _) (.number _ (.int 2 (by decide) (by decide))))
    have hbroken : Means [255] (.string "\uFFFD") :=
      .text (Option.isNone_iff_eq_none.mp (by decide +kernel))
    intro key
    by_cases hkey : key = "a"
    · simp only [payload, value, if_pos hkey]
      exact htwo
    · simp only [payload, value, if_neg hkey]
      exact hbroken
  obtain ⟨hanswered, -, hgoes⟩ := resolve_resolution echo (Json.object fields).print
  exact ⟨hlawful, hanswered, (hgoes _ _).mpr (.fields hread rfl husable payload value hmeans)⟩

end Stowage.Message
