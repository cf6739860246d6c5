import Mathlib.Tactic.Common
import Stowage.Message
/-!
# Stowage — dialogues with a backend

Messages are offloaded and resolved by putting questions to a backend: to store a candidate, or to
bring back what a reference stands for. A `Dialogue` is such a sequence of questions, each of which
may depend on the replies before it, with nothing said about who answers. `Dialogue.answered` lets a
backend answer in its own monad; `offload_answered` and `resolve_answered` say that every backend
goes through the one dialogue of `Backend.asking`, so that what holds of that dialogue, whatever the
replies, holds of every backend. `Dialogue.Goes` lists the questions with their replies.
-/

namespace Stowage

/-- A question to a backend. -/
inductive Question where
  | offload (c : Candidate)
  | rehydrate (r : Reference)

/-- What a question is answered with. -/
def Question.Reply : Question → Type
  | offload _ => Except Failure (Option Json)
  | rehydrate _ => Except Failure Bytes

abbrev Exchange := (q : Question) × q.Reply

/-- A sequence of questions, each depending on the replies before it, that ends with a result. -/
inductive Dialogue (α : Type) where
  | done (result : α)
  | ask (q : Question) (next : q.Reply → Dialogue α)

namespace Dialogue

variable {m : Type → Type} {α β : Type}

def bind : Dialogue α → (α → Dialogue β) → Dialogue β
  | done a, f => f a
  | ask q next, f => ask q fun reply => (next reply).bind f

instance : Monad Dialogue where
  pure := done
  bind := bind

@[simp] theorem done_bind (a : α) (f : α → Dialogue β) : done a >>= f = f a := rfl

@[simp] theorem ask_bind (q : Question) (next : q.Reply → Dialogue α) (f : α → Dialogue β) :
    ask q next >>= f = ask q fun reply => next reply >>= f := rfl

/-! ## Answers

What a backend does in its own monad is one thing, what is asked of it another. A dialogue keeps the
questions only, so statements about it hold for every backend at once. -/

def reply (backend : Backend m) : (q : Question) → m q.Reply
  | .offload c => backend.offload c
  | .rehydrate r => backend.rehydrate r

/-- A dialogue with the answers of a backend. -/
def answered [Monad m] (backend : Backend m) : Dialogue α → m α
  | done a => pure a
  | ask q next => reply backend q >>= fun r => (next r).answered backend

/-- A dialogue that goes on from another is answered in the same order. -/
theorem answered_bind [Monad m] [LawfulMonad m] (backend : Backend m) (d : Dialogue α)
    (f : α → Dialogue β) :
    (d >>= f).answered backend = d.answered backend >>= fun a => (f a).answered backend := by
  induction d with
  | done a => simp [answered]
  | ask q next ih =>
    rw [ask_bind, answered, answered, bind_assoc]
    exact congrArg _ (funext ih)

/-- `Goes d log a`: with the replies of the log, a dialogue asks the questions of the log and ends with a
result. -/
inductive Goes : Dialogue α → List Exchange → α → Prop where
  | done (a : α) : Goes (.done a) [] a
  | ask {q : Question} {next : q.Reply → Dialogue α} {r : q.Reply} {log : List Exchange} {a : α}
      (h : Goes (next r) log a) : Goes (.ask q next) (⟨q, r⟩ :: log) a

/-- The replies of a log are those that an answerer gives who knows what was asked and replied before. -/
def Follows (answer : List Exchange → (q : Question) → q.Reply) (log : List Exchange) : Prop :=
  ∀ before e after, log = before ++ e :: after → e.2 = answer before e.1

/-- A dialogue comes to an end, whoever answers. -/
theorem exists_goes (d : Dialogue α) (answer : List Exchange → (q : Question) → q.Reply) :
    ∃ log a, Goes d log a ∧ Follows answer log := by
  induction d generalizing answer with
  | done a =>
    refine ⟨[], a, .done a, fun before e after h => ?_⟩
    cases before <;> cases h
  | ask q next ih =>
    -- who answers the rest knows of this question, too
    obtain ⟨log, a, hgoes, hfollows⟩ :=
      ih (answer [] q) fun log => answer (⟨q, answer [] q⟩ :: log)
    refine ⟨⟨q, answer [] q⟩ :: log, a, .ask hgoes, fun before e after h => ?_⟩
    cases before with
    | nil =>
      cases h
      rfl
    | cons first before =>
      cases h
      exact hfollows before e after rfl

theorem goes_done {a b : α} {log : List Exchange} :
    Goes (done a) log b ↔ log = [] ∧ b = a := by
  constructor
  · intro h
    cases h with
    | done => exact ⟨rfl, rfl⟩
  · rintro ⟨rfl, rfl⟩
    exact .done b

/-- A dialogue that asks nothing has come to its end. -/
theorem Goes.eq_done {d : Dialogue α} {a : α} (h : Goes d [] a) : d = .done a := by
  cases h
  rfl

/-- A dialogue that asks goes on from the reply. -/
theorem goes_ask {q : Question} {next : q.Reply → Dialogue α} {log : List Exchange} {a : α} :
    Goes (.ask q next) log a ↔ ∃ r rest, log = ⟨q, r⟩ :: rest ∧ Goes (next r) rest a := by
  constructor
  · intro h
    cases h with
    | ask h => exact ⟨_, _, rfl, h⟩
  · rintro ⟨r, rest, rfl, h⟩
    exact .ask h

/-- A composed dialogue goes through its parts one after the other. -/
theorem goes_bind {d : Dialogue α} {f : α → Dialogue β} {log : List Exchange} {b : β} :
    Goes (d >>= f) log b ↔ ∃ first rest a, log = first ++ rest ∧ Goes d first a ∧ Goes (f a) rest b := by
  -- along the first dialogue: its questions come before those of the second
  induction d generalizing log with
  | done a =>
    rw [done_bind]
    constructor
    · intro h
      exact ⟨[], log, a, rfl, .done a, h⟩
    · rintro ⟨first, rest, a', rfl, h, hrest⟩
      obtain ⟨rfl, rfl⟩ := goes_done.mp h
      exact hrest
  | ask q next ih =>
    rw [ask_bind, goes_ask]
    constructor
    · rintro ⟨r, rest, rfl, h⟩
      obtain ⟨first, rest, a, rfl, hfirst, hrest⟩ := (ih r).mp h
      exact ⟨⟨q, r⟩ :: first, rest, a, rfl, .ask hfirst, hrest⟩
    · rintro ⟨first, rest, a, rfl, h, hrest⟩
      obtain ⟨r, first, rfl, hfirst⟩ := goes_ask.mp h
      exact ⟨r, first ++ rest, rfl, (ih r).mpr ⟨first, rest, a, rfl, hfirst, hrest⟩⟩

/-- A dialogue that is followed by a last step without questions. -/
theorem goes_bind_of_done {d : Dialogue α} {f : α → Dialogue β}
    {log : List Exchange} (g : α → β) (hf : ∀ a, f a = .done (g a)) {b : β} :
    Goes (d >>= f) log b ↔ ∃ a, Goes d log a ∧ b = g a := by
  rw [goes_bind]
  constructor
  · rintro ⟨first, rest, a, rfl, hfirst, hrest⟩
    rw [hf, goes_done] at hrest
    obtain ⟨rfl, rfl⟩ := hrest
    exact ⟨a, by rwa [List.append_nil], rfl⟩
  · rintro ⟨a, h, rfl⟩
    exact ⟨log, [], a, (List.append_nil log).symm, h, by rw [hf]; exact .done _⟩

end Dialogue

/-- The backend that leaves every question open. It recognizes references as another one does. -/
def Backend.asking {m : Type → Type} (backend : Backend m) : Backend Dialogue where
  name := backend.name
  threshold := backend.threshold
  offload c := .ask (.offload c) .done
  recognize := backend.recognize
  rehydrate r := .ask (.rehydrate r) .done

namespace Message

open Dialogue

variable {m : Type → Type} [Monad m] [LawfulMonad m] (backend : Backend m)

theorem answered_offload (c : Candidate) :
    (backend.asking.offload c).answered backend = backend.offload c :=
  bind_pure _

theorem answered_rehydrate (r : Reference) :
    (backend.asking.rehydrate r).answered backend = backend.rehydrate r :=
  bind_pure _

theorem offloadFields_answered (candidates : List Candidate) :
    ∀ (fields : Json.Members) (replaced : Bool),
      offloadFields backend candidates fields replaced =
        (offloadFields backend.asking candidates fields replaced).answered backend := by
  induction candidates with
  | nil => exact fun _ _ => rfl
  | cons c rest ih =>
    intro fields replaced
    rw [offloadFields, offloadFields, answered_bind, answered_offload]
    refine congrArg _ (funext fun reply => ?_)
    match reply with
    | .error failure => rfl
    | .ok (some reference) => exact ih _ _
    | .ok none => exact ih _ _

/-- **Offloading** is one dialogue, which every backend goes through with its own answers. -/
theorem offload_answered (message : Bytes) :
    offload backend message = (offload backend.asking message).answered backend := by
  have hthreshold : backend.asking.threshold = backend.threshold := rfl
  unfold offload
  rw [hthreshold]
  -- after each question both sides go on with the same reply, so only the replies are compared
  cases (Gate.mk backend.threshold).evaluate message with
  | passthrough => rfl
  | whole c =>
    simp only
    rw [answered_bind, answered_offload]
    refine congrArg _ (funext fun reply => ?_)
    match reply with
    | .error failure => rfl
    | .ok (some reference) => rfl
    | .ok none => rfl
  | fields fields candidates =>
    simp only
    rw [answered_bind, ← offloadFields_answered]
    refine congrArg _ (funext fun reply => ?_)
    match reply with
    | .error failure => rfl
    | .ok (_, true) => rfl
    | .ok (_, false) => rfl

theorem resolveFields_answered (fields : Json.Members) :
    resolveFields backend fields = (resolveFields backend.asking fields).answered backend := by
  have hrecognize : backend.asking.recognize = backend.recognize := rfl
  induction fields with
  | nil => rfl
  | cons field rest ih =>
    obtain ⟨key, value⟩ := field
    rw [resolveFields, resolveFields, hrecognize]
    match backend.recognize value with
    | .error failure => rfl
    | .ok none =>
      simp only
      rw [answered_bind, ← ih]
      refine congrArg _ (funext fun reply => ?_)
      cases reply <;> rfl
    | .ok (some r) =>
      simp only
      rw [answered_bind, answered_rehydrate]
      refine congrArg _ (funext fun reply => ?_)
      cases reply with
      | error failure => rfl
      | ok bytes =>
        simp only
        -- the payload waits for the rest of the fields, which are gone through next
        rw [answered_bind, ← ih]
        refine congrArg _ (funext fun reply => ?_)
        cases reply <;> rfl

/-- **Resolving** is one dialogue, which every backend goes through with its own answers. -/
theorem resolve_answered (message : Bytes) :
    resolve backend message = (resolve backend.asking message).answered backend := by
  have hrecognize : backend.asking.recognize = backend.recognize := rfl
  unfold resolve
  rw [hrecognize]
  cases Json.read? message with
  | none => rfl
  | some value =>
    simp only
    match backend.recognize value with
    | .error failure => rfl
    | .ok (some r) =>
      simp only
      cases r.fieldPath.isEmpty with
      | true => exact (answered_rehydrate backend r).symm
      | false => rfl
    | .ok none =>
      cases value with
      | object fields =>
        simp only
        rw [answered_bind, ← resolveFields_answered]
        refine congrArg _ (funext fun reply => ?_)
        match reply with
        | .error failure => rfl
        | .ok (_, true) => rfl
        | .ok (_, false) => rfl
      | _ => rfl

/-! ## The last step -/

/-- What becomes of a message whose fields have been gone through. -/
def finished (message : Bytes) (done : Except Failure (Json.Members × Bool)) :
    Except Failure Bytes :=
  done.map fun done => if done.2 then (Json.object done.1).print else message

theorem finish_eq {message : Bytes} (done : Except Failure (Json.Members × Bool)) :
    (match done with
      | .error failure => pure (.error failure)
      | .ok (fields, true) => pure (.ok (Json.object fields).print)
      | .ok (_, false) => pure (.ok message) : Dialogue (Except Failure Bytes)) =
      .done (finished message done) := by
  match done with
  | .error failure => rfl
  | .ok (fields, true) => rfl
  | .ok (fields, false) => rfl

end Message

end Stowage
