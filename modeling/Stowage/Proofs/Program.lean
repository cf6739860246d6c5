import Stowage.Program
/-!
# Stowage — laws of programs

A program that goes on with another one runs the first to its end and then the second from the world
the first has left. `run_bind` is that law; it is how the run of every composed program is taken
apart. `exchanges` keeps the calls of a run with their replies, for statements on what a program asks
and what it makes of the answers.

A world may also have a choice: a call that can fail at any moment is answered in one way or another.
`Ends` is how a program can end in such a world (`Choosing`), by the calls it makes and what they do;
it is taken apart by `ends_done`, `ends_call` and `ends_bind`, and every run in a world without a choice
is one of its cases (`ends_run`).
-/

namespace Stowage.Program

variable {α β σ : Type}

@[simp] theorem bind_done (a : α) (f : α → Program β) : (done a).bind f = f a := rfl

@[simp] theorem bind_call (c : Call) (next : c.Reply → Program α) (f : α → Program β) :
    (call c next).bind f = call c fun reply => (next reply).bind f := rfl

theorem bind_eq (p : Program α) (f : α → Program β) : p >>= f = p.bind f := rfl

/-- Programs are composed like lists of calls, in any grouping. -/
theorem bind_assoc {γ : Type} (p : Program α) (f : α → Program β) (g : β → Program γ) :
    (p.bind f).bind g = p.bind fun a => (f a).bind g := by
  induction p with
  | done a => rfl
  | call c next ih =>
    rw [bind_call, bind_call, bind_call]
    exact congrArg (call c) (funext fun reply => ih reply)

theorem run_call (world : Answering σ) (c : Call) (next : c.Reply → Program α) (s : σ) :
    (call c next).run world s = (next (world c s).1).run world (world c s).2 := rfl

/-- A composed program runs its parts one after the other. -/
theorem run_bind (world : Answering σ) (p : Program α) (f : α → Program β) (s : σ) :
    (p >>= f).run world s = (f (p.run world s).1).run world (p.run world s).2 := by
  rw [bind_eq]
  induction p generalizing s with
  | done a => rfl
  | call c next ih => exact ih _ _

/-- A composed program whose first part is known to end with a result in a world. -/
theorem run_bind_of_eq {world : Answering σ} {p : Program α} {f : α → Program β} {s s' : σ} {a : α}
    (h : p.run world s = (a, s')) : (p >>= f).run world s = (f a).run world s' := by
  rw [run_bind, h]

/-- The calls that a program makes in a world, each with its reply, in order. -/
def exchanges (world : Answering σ) : Program α → σ → List ((c : Call) × c.Reply)
  | done _, _ => []
  | call c next, s => ⟨c, (world c s).1⟩ :: (next (world c s).1).exchanges world (world c s).2

theorem exchanges_call (world : Answering σ) (c : Call) (next : c.Reply → Program α) (s : σ) :
    (call c next).exchanges world s =
      ⟨c, (world c s).1⟩ :: (next (world c s).1).exchanges world (world c s).2 := rfl

/-- The calls of a composed program are those of its parts. -/
theorem exchanges_bind (world : Answering σ) (p : Program α) (f : α → Program β) (s : σ) :
    (p >>= f).exchanges world s =
      p.exchanges world s ++ (f (p.run world s).1).exchanges world (p.run world s).2 := by
  rw [bind_eq]
  induction p generalizing s with
  | done a => rfl
  | call c next ih => rw [bind_call, exchanges_call, exchanges_call, List.cons_append, ih, run_call]

/-- Every reply of a run is the answer of the world in some state. -/
theorem exists_reply_eq {world : Answering σ} {p : Program α} {e : (c : Call) × c.Reply} :
    ∀ {s : σ}, e ∈ p.exchanges world s → ∃ s', e.2 = (world e.1 s').1 := by
  induction p with
  | done a => exact fun h => absurd h List.not_mem_nil
  | call c next ih =>
    intro s h
    rcases List.mem_cons.mp h with rfl | h
    · exact ⟨s, rfl⟩
    · exact ih _ h

/-! ## Worlds with a choice

A disk may fail at any step, so what answers a call of a program on files is a relation and not a
function. `Ends` is how a program can end in such a world. It composes like a run (`ends_bind`), and a
run is a special case of it (`ends_run`). -/

/-- A call with its reply. -/
abbrev Exchange := (c : Call) × c.Reply

/-- A world that has a choice: which replies a call can get, and what becomes of the world with each. -/
abbrev Choosing (σ : Type) := (c : Call) → σ → c.Reply → σ → Prop

/-- `Ends world p s log a s'`: from the world `s`, with the calls and replies of the log, a program can
end with a result and leave the world `s'`. -/
inductive Ends (world : Choosing σ) :
    Program α → σ → List Exchange → α → σ → Prop where
  | done (a : α) (s : σ) : Ends world (done a) s [] a s
  | call {c : Call} {next : c.Reply → Program α} {s s₁ s' : σ} {r : c.Reply}
      {log : List Exchange} {a : α} (h : world c s r s₁) (hrest : Ends world (next r) s₁ log a s') :
      Ends world (call c next) s (⟨c, r⟩ :: log) a s'

section

variable {world : Choosing σ} {s s' : σ} {log : List Exchange}

/-- A program without calls ends at once, in the state it starts in. -/
theorem ends_done {a b : α} :
    Ends world (done a) s log b s' ↔ log = [] ∧ b = a ∧ s' = s := by
  constructor
  · intro h
    cases h with
    | done => exact ⟨rfl, rfl, rfl⟩
  · rintro ⟨rfl, rfl, rfl⟩
    exact .done b s'

/-- A program that starts with a call ends as what it does with some reply to it. -/
theorem ends_call {c : Call} {next : c.Reply → Program α} {a : α} :
    Ends world (call c next) s log a s' ↔
      ∃ r s₁ rest, log = ⟨c, r⟩ :: rest ∧ world c s r s₁ ∧ Ends world (next r) s₁ rest a s' := by
  constructor
  · intro h
    cases h with
    | call h hrest => exact ⟨_, _, _, rfl, h, hrest⟩
  · rintro ⟨r, s₁, rest, rfl, h, hrest⟩
    exact .call h hrest

/-- A composed program ends as its parts do, one after the other. -/
theorem ends_bind {p : Program α} {f : α → Program β} {b : β} :
    Ends world (p >>= f) s log b s' ↔
      ∃ first rest a s₁, log = first ++ rest ∧ Ends world p s first a s₁ ∧
        Ends world (f a) s₁ rest b s' := by
  rw [bind_eq]
  -- induction on the first program; its calls come before those of the second
  induction p generalizing s log with
  | done a =>
    constructor
    · intro h
      exact ⟨[], log, a, s, rfl, .done a s, h⟩
    · rintro ⟨first, rest, a', s₁, rfl, hfirst, hrest⟩
      obtain ⟨rfl, rfl, rfl⟩ := ends_done.mp hfirst
      exact hrest
  | call c next ih =>
    rw [bind_call, ends_call]
    constructor
    · rintro ⟨r, s₁, rest, rfl, hcall, hends⟩
      obtain ⟨first, rest, a, s₂, rfl, hfirst, hrest⟩ := (ih r).mp hends
      exact ⟨⟨c, r⟩ :: first, rest, a, s₂, rfl, .call hcall hfirst, hrest⟩
    · rintro ⟨first, rest, a, s₂, rfl, hfirst, hrest⟩
      obtain ⟨r, s₁, first, rfl, hcall, hfirst⟩ := ends_call.mp hfirst
      exact ⟨r, s₁, first ++ rest, rfl, hcall, (ih r).mpr ⟨first, rest, a, s₂, rfl, hfirst, hrest⟩⟩

/-- **A run** in a world without a choice is one way to end, wherever each answer of that world is one
that can be chosen. -/
theorem ends_run {τ : Type} {answering : Answering τ} (view : τ → σ) (Fair : τ → Prop)
    (hchosen : ∀ c t, Fair t → world c (view t) (answering c t).1 (view (answering c t).2))
    (hfair : ∀ c t, Fair t → Fair (answering c t).2) (p : Program α) :
    ∀ t, Fair t → Ends world p (view t) (p.exchanges answering t) (p.run answering t).1
      (view (p.run answering t).2) := by
  induction p with
  | done a => exact fun t _ => .done a (view t)
  | call c next ih =>
    intro t ht
    exact .call (hchosen c t ht) (ih _ _ (hfair c t ht))

end

end Stowage.Program
