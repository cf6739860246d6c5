import Stowage.Proofs.Program
import Stowage.Chunk.Transfer
/-!
# Stowage — deadlines

A `Sequence` is a transfer without a deadline: it asks a chunk host one thing after the other and ends
with a result. `Sequence.within` puts one deadline over all of it, and a transfer is nothing else:
`store_eq_within` and `fetch_eq_within`.

Time is what a `Client` says it is. The course of a sequence is what it asks and how long every answer
takes when there is no deadline; `run_within` and `calls_within` say what a deadline makes of a course,
both by induction on the sequence with the moment at which a call starts as the parameter. The deadline
theorem for transfers, `deadline_covers`, puts them together.
-/

namespace Stowage.Chunk

/-! ## Sequences

The two transfers with all mention of time left out. Putting the deadline back (`Sequence.within`) gives
the transfers as they are, so a deadline can be studied without looking at what is transferred. -/

/-- What a chunk host is asked, however much time there is. -/
inductive Ask where
  | store (r : StoreRequest)
  | get (r : GetRequest)

/-- What is learned from the answer. -/
def Ask.Outcome : Ask → Type
  | store _ => Except CallError Unit
  | get _ => Except CallError Window

/-- The call that asks, with the time that is left for the answer. -/
def Ask.call : Ask → Nat → Call
  | store r, patience => .store r patience
  | get r, patience => .get r patience

/-- A sequence of calls to a chunk host that knows no time. -/
inductive Sequence (α : Type) where
  | done (result : α)
  | ask (a : Ask) (next : a.Outcome → Sequence α)

/-- Makes a call and goes on with its answer, if there is one in time. -/
def Ask.then {α : Type} : (a : Ask) → Nat → (Timed a.Outcome → Program α) → Program α
  | store r, patience, next => .call (.store r patience) next
  | get r, patience, next => .call (.get r patience) next

/-- The program that goes through a sequence with so much time left for all of it, and ends with `late`
if that is not enough. -/
def Sequence.within {α : Type} (late : α) : Sequence α → Nat → Program α
  | done a, _ => .done a
  | ask a next, patience =>
    a.then patience fun reply =>
      match reply with
      | none => .done late
      | some (spent, outcome) => (next outcome).within late (patience - spent)

namespace Transfer

variable {t : Transfer}

/-- Stores windows one after the other, up to the first that fails. -/
def storing : List StoreRequest → Sequence (Except Failure Unit)
  | [] => .done (.ok ())
  | r :: rest =>
    .ask (.store r) fun outcome =>
      match outcome with
      | .error why => .done (.error (why.atOffset r.offset))
      | .ok () => storing rest

/-- Fetches what is missing of a payload. -/
def fetching (t : Transfer) (ref : String) (total : Nat) :
    Nat → Bytes → Sequence (Except Failure Bytes)
  | 0, received => .done (complete total received)
  | fuel + 1, received =>
    if received.length < total then
      .ask (.get ⟨ref, received.length, t.chunkSize⟩) fun outcome =>
        match outcome with
        | .error why => .done (.error (why.atOffset received.length))
        | .ok window =>
          match t.accept total received window with
          | .error failure => .done (.error failure)
          | .ok (received, true) => .done (complete total received)
          | .ok (received, false) => t.fetching ref total fuel received
    else .done (complete total received)

/-- Storing windows is their sequence within the time that is left. Induction on the windows. -/
theorem storeAll_eq_within (t : Transfer) (requests : List StoreRequest) :
    ∀ patience, t.storeAll requests patience =
      (storing requests).within (.error (.timeout t.deadline)) patience := by
  induction requests with
  | nil => exact fun _ => rfl
  | cons r rest ih =>
    intro patience
    rw [storeAll, storing, Sequence.within, Ask.then]
    congr 1
    funext reply
    match reply with
    | none => rfl
    | some (_, .error why) => rfl
    | some (spent, .ok ()) => exact ih (patience - spent)

/-- **Storing a payload** is its sequence under the deadline. -/
theorem store_eq_within (t : Transfer) (ref : String) (data : Bytes) :
    t.store ref data = (storing (t.plan ref data)).within (.error (.timeout t.deadline))
      t.deadline.nanoseconds :=
  t.storeAll_eq_within (t.plan ref data) t.deadline.nanoseconds

/-- Going on with a fetch is its sequence within the time that is left. Induction on the fuel. -/
theorem fetchFrom_eq_within (t : Transfer) (ref : String) (total fuel : Nat) :
    ∀ received patience, t.fetchFrom ref total fuel received patience =
      (t.fetching ref total fuel received).within (.error (.timeout t.deadline)) patience := by
  induction fuel with
  | zero => exact fun _ _ => rfl
  | succ fuel ih =>
    intro received patience
    rw [fetchFrom, fetching]
    -- both ask only as long as bytes are missing, and then the reply decides for both
    by_cases hmore : received.length < total
    · rw [if_pos hmore, if_pos hmore, Sequence.within, Ask.then]
      congr 1
      funext reply
      match reply with
      | none => rfl
      | some (_, .error why) => rfl
      | some (spent, .ok window) =>
        simp only
        cases t.accept total received window with
        | error failure => rfl
        | ok accepted =>
          match accepted with
          | (received, true) => rfl
          | (received, false) => exact ih received (patience - spent)
    · rw [if_neg hmore, if_neg hmore]
      rfl

/-- **Fetching a payload** is its sequence under the deadline. -/
theorem fetch_eq_within (t : Transfer) (ref : String) (total : Nat) :
    t.fetch ref total = (t.fetching ref total total []).within (.error (.timeout t.deadline))
      t.deadline.nanoseconds :=
  t.fetchFrom_eq_within ref total total [] t.deadline.nanoseconds

end Transfer

/-! ## Clients and the time they take

A client decides how long each answer takes, if it answers at all. Its choice may depend on everything
it was asked before, so a course of calls is known only once all of it has been answered. -/

/-- A client of a chunk host: whether it ever answers, after how long, and with what. All of it may
depend on what was asked and on whatever the client remembers. -/
abbrev Client (γ : Type) := (a : Ask) → γ → Option (Nat × a.Outcome) × γ

/-- What a call gets from a client within its patience. An answer at the last moment counts. -/
def Client.reply {γ : Type} (client : Client γ) (a : Ask) (patience : Nat) (s : γ) :
    Timed a.Outcome × γ :=
  match client a s with
  | (none, s) => (none, s)
  | (some (delay, outcome), s) =>
    if patience < delay then (none, s) else (some (delay, outcome), s)

/-- The world in which only the calls to a client take time. -/
def Client.answer {γ : Type} (client : Client γ) : Answering γ
  | .store r patience, s => client.reply (.store r) patience s
  | .get r patience, s => client.reply (.get r) patience s
  | .draw, s => ([], s)
  | .send _ _ _, s => (none, s)
  | .input, s => ([], s)
  | .read _, s => (none, s)
  | .change _, s => (none, s)
  | .listen _ _, s => ("", s)

variable {α γ : Type}

theorem run_then (client : Client γ) (a : Ask) (patience : Nat)
    (next : Timed a.Outcome → Program α) (s : γ) :
    (a.then patience next).run client.answer s =
      (next (client.reply a patience s).1).run client.answer (client.reply a patience s).2 := by
  cases a <;> rfl

/-- The calls that a program makes of a client, in order. -/
def issued (client : Client γ) (p : Program α) (s : γ) : List Call :=
  (p.exchanges client.answer s).map Sigma.fst

/-- Making a call and going on issues the call first. -/
theorem issued_then (client : Client γ) (a : Ask) (patience : Nat)
    (next : Timed a.Outcome → Program α) (s : γ) :
    issued client (a.then patience next) s =
      a.call patience ::
        issued client (next (client.reply a patience s).1) (client.reply a patience s).2 := by
  cases a <;> rfl

/-- A call of a course: when it starts, what it asks, and how long the answer takes if there is one. -/
structure Leg where
  start : Nat
  ask : Ask
  delay : Option Nat

namespace Sequence

/-- The calls that a sequence makes from a moment on when there is no deadline. The next call starts when
the answer to the one before it is there. -/
def course (client : Client γ) : Sequence α → Nat → γ → List Leg
  | done _, _, _ => []
  | ask a next, now, s =>
    match client a s with
    | (none, _) => [⟨now, a, none⟩]
    | (some (delay, outcome), s) =>
      ⟨now, a, some delay⟩ :: (next outcome).course client (now + delay) s

/-- What a sequence ends with when there is no deadline. It does not end if a call is never answered. -/
def result? (client : Client γ) : Sequence α → γ → Option α
  | done a, _ => some a
  | ask a next, s =>
    match client a s with
    | (none, _) => none
    | (some (_, outcome), s) => (next outcome).result? client s

end Sequence

/-- The time that the answers of a course take together. -/
def elapsed : List Leg → Nat
  | [] => 0
  | leg :: rest => leg.delay.getD 0 + elapsed rest

/-! ## Sequences under a deadline

Without a deadline, a sequence has a course and perhaps a result. A deadline cuts the course where a
call would start too late, and keeps the result if nothing was cut. -/

namespace Sequence

variable (client : Client γ)

/-- No call of a course starts before the course does. -/
theorem le_start (seq : Sequence α) :
    ∀ {now : Nat} {s : γ}, ∀ leg ∈ seq.course client now s, now ≤ leg.start := by
  induction seq with
  | done a => exact fun leg hleg => absurd hleg List.not_mem_nil
  | ask a next ih =>
    intro now s leg hleg
    rw [course] at hleg
    match hreply : client a s with
    | (none, s₁) =>
      rw [hreply, List.mem_singleton] at hleg
      subst hleg
      exact Nat.le_refl now
    | (some (delay, outcome), s₁) =>
      rw [hreply, List.mem_cons] at hleg
      obtain rfl | hleg := hleg
      · exact Nat.le_refl now
      · exact Nat.le_trans (Nat.le_add_right now delay) (ih outcome leg hleg)

/-- A call starts when the answers before it have taken their time. -/
theorem start_eq (seq : Sequence α) :
    ∀ {now : Nat} {s : γ} {before after : List Leg} {leg : Leg},
      seq.course client now s = before ++ leg :: after → leg.start = now + elapsed before := by
  induction seq with
  | done a =>
    intro now s before after leg hcourse
    exact absurd hcourse.symm (by simp [course])
  | ask a next ih =>
    intro now s before after leg hcourse
    -- the call is either the first of the course or comes behind the answer to the first
    rw [course] at hcourse
    match hreply : client a s with
    | (none, s₁) =>
      rw [hreply] at hcourse
      cases before with
      | nil =>
        obtain ⟨rfl, -⟩ := List.cons.inj hcourse
        rfl
      | cons first before =>
        obtain ⟨-, hrest⟩ := List.cons.inj hcourse
        exact absurd hrest.symm (by simp)
    | (some (delay, outcome), s₁) =>
      rw [hreply] at hcourse
      cases before with
      | nil =>
        obtain ⟨rfl, -⟩ := List.cons.inj hcourse
        rfl
      | cons first before =>
        obtain ⟨rfl, hrest⟩ := List.cons.inj hcourse
        rw [ih outcome hrest, elapsed]
        exact Nat.add_assoc now delay _

/-- **The result under a deadline** is that of the sequence, if the sequence ends and its answers take
no longer than the time that is left; otherwise the sequence is late. -/
theorem run_within (late : α) (seq : Sequence α) :
    ∀ (patience now : Nat) (s : γ), ((seq.within late patience).run client.answer s).1 =
      if elapsed (seq.course client now s) ≤ patience then (seq.result? client s).getD late
      else late := by
  induction seq with
  | done a =>
    intro patience now s
    exact (if_pos (Nat.zero_le patience)).symm
  | ask a next ih =>
    intro patience now s
    rw [within, run_then, course, result?, Client.reply]
    match client a s with
    | (none, s₁) => exact (if_pos (Nat.zero_le patience)).symm
    | (some (delay, outcome), s₁) =>
      simp only
      rw [elapsed, Option.getD_some]
      -- an answer that is late ends both; one in time leaves less time for the rest
      by_cases hlate : patience < delay
      · rw [if_pos hlate, if_neg (by omega)]
        rfl
      · rw [if_neg hlate]
        simp only
        have hleft : ∀ rest, delay + rest ≤ patience ↔ rest ≤ patience - delay := by omega
        simp only [ih outcome (patience - delay) (now + delay) s₁, hleft]

/-- **The calls under a deadline** are those of the sequence that start in time, each with the time that
is left at its start. -/
theorem calls_within (late : α) (seq : Sequence α) :
    ∀ (patience now : Nat) (s : γ), issued client (seq.within late patience) s =
      ((seq.course client now s).filter fun leg => leg.start ≤ now + patience).map
        fun leg => leg.ask.call (now + patience - leg.start) := by
  induction seq with
  | done a => exact fun _ _ _ => rfl
  | ask a next ih =>
    intro patience now s
    rw [within, issued_then, course, Client.reply]
    have hleft : now + patience - now = patience := Nat.add_sub_cancel_left now patience
    match client a s with
    | (none, s₁) =>
      have hfirst : now ≤ now + patience := Nat.le_add_right now patience
      simp only [List.filter_cons, hfirst, decide_true, if_true, List.filter_nil, List.map_cons, hleft]
      rfl
    | (some (delay, outcome), s₁) =>
      have hfirst : now ≤ now + patience := Nat.le_add_right now patience
      simp only [List.filter_cons, hfirst, decide_true, if_true, List.map_cons, hleft]
      congr 1
      by_cases hlate : patience < delay
      · -- the next call would start when the time is over, and so would every one after it
        have hnone : ((next outcome).course client (now + delay) s₁).filter
            (fun leg => leg.start ≤ now + patience) = [] := by
          rw [List.filter_eq_nil_iff]
          intro leg hleg hstart
          have hlater := (next outcome).le_start client leg hleg
          have hin := of_decide_eq_true hstart
          omega
        rw [if_pos hlate, hnone]
        rfl
      · have hsplit : now + patience = now + delay + (patience - delay) := by omega
        rw [if_neg hlate, hsplit]
        exact ih outcome (patience - delay) (now + delay) s₁

/-- A sequence has no result exactly if one of its calls is never answered. -/
theorem result?_eq_none_iff (seq : Sequence α) :
    ∀ (now : Nat) (s : γ),
      seq.result? client s = none ↔ ∃ leg ∈ seq.course client now s, leg.delay = none := by
  induction seq with
  | done a =>
    intro now s
    simp [result?, course]
  | ask a next ih =>
    intro now s
    rw [result?, course]
    match client a s with
    | (none, s₁) => simp
    | (some (delay, outcome), s₁) =>
      simp only
      rw [ih outcome (now + delay) s₁]
      simp

/-- Everything that a sequence can end with has a property. -/
def All (P : α → Prop) : Sequence α → Prop
  | done a => P a
  | ask a next => ∀ outcome : a.Outcome, (next outcome).All P

theorem All.of_result? {P : α → Prop} {seq : Sequence α} (h : seq.All P) :
    ∀ {s : γ} {a : α}, seq.result? client s = some a → P a := by
  induction seq with
  | done b =>
    intro s a hresult
    obtain rfl : b = a := Option.some.inj hresult
    exact h
  | ask b next ih =>
    intro s a hresult
    rw [result?] at hresult
    match hreply : client b s with
    | (none, s₁) =>
      rw [hreply] at hresult
      cases hresult
    | (some (delay, outcome), s₁) =>
      rw [hreply] at hresult
      exact ih outcome (h outcome) hresult

end Sequence

/-! ## Transfers under their deadline

A transfer of its own accord never reports that its time is over. So a report of that kind comes from
the deadline, and tells a transfer that was cut off from one that failed. -/

/-- A result that is no timeout. -/
def Untimed {α : Type} (result : Except Failure α) : Prop := ∀ d, result ≠ .error (.timeout d)

/-- A failed call is never reported as time being over. -/
theorem untimed_atOffset {α : Type} (why : CallError) (offset : Nat) :
    Untimed (.error (why.atOffset offset) : Except Failure α) := by
  intro d
  cases why <;> nofun

namespace Transfer

theorem untimed_storing (requests : List StoreRequest) : (storing requests).All Untimed := by
  induction requests with
  | nil => exact fun d => nofun
  | cons r rest ih =>
    intro outcome
    match outcome with
    | .error why => exact untimed_atOffset why r.offset
    | .ok () => exact ih

theorem untimed_complete (total : Nat) (received : Bytes) :
    Untimed (complete total received) := by
  intro d
  unfold complete
  split <;> nofun

theorem untimed_accept {t : Transfer} {total : Nat} {received : Bytes} {w : Window} {failure : Failure}
    (h : t.accept total received w = .error failure) :
    Untimed (.error failure : Except Failure Bytes) := by
  intro d hfailure
  cases hfailure
  unfold accept at h
  split at h
  · cases h
  · split at h
    · cases h
    · split at h <;> cases h

theorem untimed_fetching (t : Transfer) (ref : String) (total fuel : Nat) :
    ∀ received, (t.fetching ref total fuel received).All Untimed := by
  induction fuel with
  | zero => exact untimed_complete total
  | succ fuel ih =>
    -- nothing is reported but what a call, a window or the last check gives
    intro received
    rw [fetching]
    split
    · intro outcome
      match outcome with
      | .error why => exact untimed_atOffset why received.length
      | .ok window =>
        simp only
        cases haccept : t.accept total received window with
        | error failure => exact untimed_accept haccept
        | ok accepted =>
          match accepted with
          | (received, true) => exact untimed_complete total received
          | (received, false) => exact ih received
    · exact untimed_complete total received

end Transfer

/-- One deadline covers all of a sequence: the program is late exactly if a call of the sequence is never
answered or the answers take more than the deadline together, and otherwise ends as the sequence does.
Every call of the sequence starts when the answers before it have taken their time, and those that start
within the deadline are the calls that are made. -/
structure Covers (deadline : Duration) {α γ : Type} (seq : Sequence (Except Failure α))
    (client : Client γ) (s : γ) (p : Program (Except Failure α)) : Prop where
  timeout_iff : (p.run client.answer s).1 = .error (.timeout deadline) ↔
    (∃ leg ∈ seq.course client 0 s, leg.delay = none) ∨
      deadline.nanoseconds < elapsed (seq.course client 0 s)
  in_time : (∀ leg ∈ seq.course client 0 s, leg.delay ≠ none) →
    elapsed (seq.course client 0 s) ≤ deadline.nanoseconds →
      seq.result? client s = some (p.run client.answer s).1
  starts : ∀ before leg after, seq.course client 0 s = before ++ leg :: after →
    leg.start = elapsed before
  issued : issued client p s =
    ((seq.course client 0 s).filter fun leg => leg.start ≤ deadline.nanoseconds).map
      fun leg => leg.ask.call (deadline.nanoseconds - leg.start)

/-- What a deadline covers of a sequence that does not itself report that time is over. -/
theorem covers_within (deadline : Duration) {α γ : Type} {seq : Sequence (Except Failure α)}
    (h : seq.All Untimed) (client : Client γ) (s : γ) :
    Covers deadline seq client s (seq.within (.error (.timeout deadline)) deadline.nanoseconds) := by
  have hrun := seq.run_within client (.error (.timeout deadline)) deadline.nanoseconds 0 s
  have hcalls := seq.calls_within client (.error (.timeout deadline)) deadline.nanoseconds 0 s
  have hstalled := seq.result?_eq_none_iff client 0 s
  rw [Nat.zero_add] at hcalls
  refine ⟨?_, ?_, fun before leg after hcourse => ?_, hcalls⟩
  -- a timeout is reported if an answer is missing or the answers take too long together
  · rw [hrun, ← hstalled]
    by_cases hlong : elapsed (seq.course client 0 s) ≤ deadline.nanoseconds
    · rw [if_pos hlong]
      cases hresult : seq.result? client s with
      | none => simp
      | some result =>
        have huntimed := h.of_result? client hresult deadline
        simp only [Option.getD_some, huntimed, reduceCtorEq, false_or, false_iff]
        omega
    · rw [if_neg hlong]
      simp only [true_iff]
      exact .inr (Nat.lt_of_not_le hlong)
  -- where all answers come and take no longer than the deadline, nothing is cut off
  · intro hanswered hlong
    rw [hrun, if_pos hlong]
    cases hresult : seq.result? client s with
    | none =>
      obtain ⟨leg, hleg, hnone⟩ := hstalled.mp hresult
      exact absurd hnone (hanswered leg hleg)
    | some result => rfl
  · rw [seq.start_eq client hcourse, Nat.zero_add]

/-- **The deadline covers the whole transfer.** Whatever a client makes of each call and however long it
takes, storing a payload and fetching one under a deadline end in a timeout exactly if their calls would
take longer together or one of them is never answered, otherwise they end as they would without a
deadline, and they make the calls that start before the deadline has passed. -/
theorem Transfer.deadline_covers (t : Transfer) {γ : Type} (client : Client γ) (s : γ) (ref : String) :
    (∀ data : Bytes,
      Covers t.deadline (Transfer.storing (t.plan ref data)) client s (t.store ref data)) ∧
    ∀ total : Nat, Covers t.deadline (t.fetching ref total total []) client s (t.fetch ref total) := by
  constructor
  · intro data
    rw [t.store_eq_within]
    exact covers_within t.deadline (Transfer.untimed_storing _) client s
  · intro total
    rw [t.fetch_eq_within]
    exact covers_within t.deadline (t.untimed_fetching ref total total []) client s

/-- A client that stores a window in five nanoseconds and never gives one. -/
def steady : Client Unit
  | .store _, s => (some (5, .ok ()), s)
  | .get _, s => (none, s)

-- two windows take ten nanoseconds: in time at the last moment, and late one nanosecond before it
example : (((Transfer.make 1 ⟨10⟩).store "r" [1, 2]).run steady.answer ()).1 = .ok () := rfl

example : (((Transfer.make 1 ⟨9⟩).store "r" [1, 2]).run steady.answer ()).1 =
    .error (.timeout ⟨9⟩) := rfl

end Stowage.Chunk
