import Stowage.Proofs.Chunk.Interruption
import Stowage.Proofs.Chunk.Storing
/-!
# Stowage — storing again what was cut short

A transfer that is cut short leaves a prefix of its payload behind, and the next one may cut the payload
differently: its windows then lie within what is there, reach beyond it, or go on from it. `Begun` is
what every window keeps (`Relays.window`), so every attempt, wherever it stops (`begun_leave`), and so any
number of them (`begun_attempted`). A transfer that meets no more faults completes the payload from there:
`store_again`.
-/

namespace Stowage.Chunk

/-! ## Attempts

Of a client all that matters is that it invents no success: either the store carries out a call, or
nothing happens and no success is reported. This leaves out what else a client may do, such as carrying
a call out and losing its answer. -/

/-- `Relays world host`: the store behind a world carries out a store call, whatever becomes of the answer,
or nothing happens there and the call does not succeed. -/
def Relays {σ : Type} (world : Answering σ) (host : σ → Store) : Prop :=
  ∀ r patience s, ∃ (reply : Timed (Except CallError Unit)) (s' : σ),
    world (.store r patience) s = (reply, s') ∧
      (host s' = ((host s).answerStore r).2 ∨
        (host s' = host s ∧ ∀ spent, reply ≠ some (spent, .ok ())))

/-- A client that forwards, fails or stalls invents no success. -/
theorem Courier.relays_answer {γ : Type} (courier : Courier γ) : Relays courier.answer Prod.fst := by
  intro r patience s
  rcases courier.answer_store_cases r patience s with
    ⟨spent, memory, heq⟩ | ⟨memory, heq⟩ | ⟨spent, why, memory, heq⟩
  · exact ⟨_, _, heq, .inl rfl⟩
  · exact ⟨_, _, heq, .inr ⟨rfl, nofun⟩⟩
  · exact ⟨_, _, heq, .inr ⟨rfl, nofun⟩⟩

/-- An attempt to store a payload: the transfer, and the client with its memory. The client fails where
it likes. -/
structure Attempt where
  transfer : Transfer
  Memory : Type
  memory : Memory
  world : Answering (Store × Memory)
  relays : Relays world Prod.fst

namespace Attempt

/-- An attempt through a client that passes calls on, fails them, or never answers. -/
def through {γ : Type} (t : Transfer) (courier : Courier γ) (memory : γ) : Attempt :=
  ⟨t, γ, memory, courier.answer, courier.relays_answer⟩

/-- What an attempt leaves of a store. -/
def leave (a : Attempt) (ref : String) (data : Bytes) (s : Store) : Store :=
  ((a.transfer.store ref data).run a.world (s, a.memory)).2.1

end Attempt

/-- What is left of a store after attempts, one after the other. -/
def attempted (attempts : List Attempt) (ref : String) (data : Bytes) (s : Store) : Store :=
  attempts.foldl (fun s a => a.leave ref data s) s

/-! ## What attempts leave

Windows of another size may start in the middle of what is there and end before its end. Such a window
writes the bytes that are there over themselves, so the prefix neither shrinks nor changes. -/

/-- A prefix of a payload has arrived, which may be nothing or all of it. -/
def Begun (data : Bytes) (entry : Option Payload) : Prop :=
  ∃ k, k ≤ data.length ∧ Holds entry data.length (data.take k)

/-- **One window** that leaves no gap leaves a prefix of its payload, and none shorter than the bytes before
its end if the call succeeds. -/
theorem Relays.window {σ : Type} {world : Answering σ} {host : σ → Store} (h : Relays world host)
    {data before chunk rest : Bytes} {k : Nat} (ref : String) (patience : Nat) (s : σ)
    (hdata : data = before ++ (chunk ++ rest)) (hbefore : before.length ≤ k) (hk : k ≤ data.length)
    (hholds : Holds ((host s).find? ref) data.length (data.take k))
    (hmaximum : data.length ≤ (host s).maximum) (hlimit : data.length < offsetLimit) :
    ∃ reply s', world (.store (Transfer.request ref data.length (before.length, chunk)) patience) s =
        (reply, s') ∧
      SameBut ref (host s) (host s') ∧ Begun data ((host s').find? ref) ∧
      ∀ spent, reply = some (spent, .ok ()) →
        Holds ((host s').find? ref) data.length (data.take (max k (before.length + chunk.length))) := by
  have hlength : data.length = before.length + (chunk.length + rest.length) := by
    rw [hdata, List.length_append, List.length_append]
  obtain ⟨reply, s', hcall, hhost | ⟨hhost, hfails⟩⟩ :=
    h (Transfer.request ref data.length (before.length, chunk)) patience s
  -- carried out, the window writes over the prefix or makes it longer
  · rw [Store.answerStore_window ref hholds hdata hbefore hmaximum hlimit] at hhost
    have hholds' : Holds ((host s').find? ref) data.length
        (data.take (max k (before.length + chunk.length))) := by
      rw [hhost, Store.find?_put_self]
      exact .inr rfl
    exact ⟨reply, s', hcall, hhost ▸ sameBut_put (host s) ref _, ⟨_, by omega, hholds'⟩,
      fun _ _ => hholds'⟩
  -- not carried out, it leaves the prefix that was there
  · refine ⟨reply, s', hcall, ?_, ?_, fun spent hok => absurd hok (hfails spent)⟩
    · rw [hhost]
      exact .refl ref (host s)
    · rw [hhost]
      exact ⟨k, hk, hholds⟩

/-- Storing the windows that are left of a payload leaves a prefix of it, wherever it stops. Induction on
the windows: the calls for those before the next one succeeded, so that it leaves no gap. -/
theorem Transfer.storeAll_leaves (t : Transfer) {σ : Type} {world : Answering σ} {host : σ → Store}
    (hrelays : Relays world host) {size offset : Nat} {rest : Bytes} {windows : List (Nat × Bytes)}
    (h : Tiles size offset rest windows) (ref : String) (data : Bytes) :
    ∀ (before : Bytes) (k patience : Nat) (s : σ), data = before ++ rest → offset = before.length →
      before.length ≤ k → k ≤ data.length → Holds ((host s).find? ref) data.length (data.take k) →
      data.length ≤ (host s).maximum → data.length < offsetLimit →
      ∃ result s', (t.storeAll (windows.map (request ref data.length)) patience).run world s =
          (result, s') ∧
        Begun data ((host s').find? ref) ∧ SameBut ref (host s) (host s') := by
  -- induction on the windows; the prefix `k` may reach beyond the window that is sent next
  induction h with
  | nil offset =>
    intro before k patience s _ _ _ hk hholds _ _
    exact ⟨_, s, rfl, ⟨k, hk, hholds⟩, .refl ref (host s)⟩
  | cons offset chunk rest windows hne hle hfull _ ih =>
    intro before k patience s hdata hoffset hbefore hk hholds hmaximum hlimit
    subst hoffset
    obtain ⟨reply, s₁, hcall, hsame, hbegun, htaken⟩ :=
      hrelays.window ref patience s hdata hbefore hk hholds hmaximum hlimit
    rw [List.map_cons, storeAll, Program.run_call, hcall]
    cases reply with
    | none => exact ⟨_, s₁, rfl, hbegun, hsame⟩
    | some answer =>
      obtain ⟨spent, outcome⟩ := answer
      cases outcome with
      | error why => exact ⟨_, s₁, rfl, hbegun, hsame⟩
      | ok =>
        have hlength : data.length = before.length + (chunk.length + rest.length) := by
          rw [hdata, List.length_append, List.length_append]
        obtain ⟨result, s₂, hrun, hbegun, hsame₂⟩ := ih (before ++ chunk)
          (max k (before.length + chunk.length)) (patience - spent) s₁
          (by rw [hdata, List.append_assoc]) (by rw [List.length_append])
          (by rw [List.length_append]; omega) (by omega) (htaken spent rfl)
          (by rw [hsame.maximum]; exact hmaximum) hlimit
        exact ⟨result, s₂, hrun, hbegun, hsame.trans hsame₂⟩

section

variable {ref : String} {data : Bytes}

/-- **One attempt** leaves a prefix of the payload, wherever it is cut off, and the other payloads as they
were. -/
theorem begun_leave (a : Attempt) {s : Store} (hbegun : Begun data (s.find? ref))
    (hmaximum : data.length ≤ s.maximum) (hlimit : data.length < offsetLimit) :
    Begun data ((a.leave ref data s).find? ref) ∧ SameBut ref s (a.leave ref data s) := by
  obtain ⟨k, hk, hholds⟩ := hbegun
  obtain ⟨result, s', hrun, hleft⟩ := a.transfer.storeAll_leaves a.relays
    (Transfer.tiles_windows a.transfer.one_le_chunkSize data) ref data [] k
    a.transfer.deadline.nanoseconds (s, a.memory) rfl rfl (Nat.zero_le k) hk hholds hmaximum hlimit
  have hleave : a.leave ref data s = s'.1 :=
    congrArg (fun ended : Except Failure Unit × (Store × a.Memory) => ended.2.1) hrun
  rw [hleave]
  exact hleft

/-- **Any number of attempts** do. Induction on the attempts. -/
theorem begun_attempted (attempts : List Attempt) (hlimit : data.length < offsetLimit) :
    ∀ {s : Store}, Begun data (s.find? ref) → data.length ≤ s.maximum →
      Begun data ((attempted attempts ref data s).find? ref) ∧
        SameBut ref s (attempted attempts ref data s) := by
  induction attempts with
  | nil => exact fun {s} hbegun _ => ⟨hbegun, .refl ref s⟩
  | cons a attempts ih =>
    intro s hbegun hmaximum
    obtain ⟨hbegun, hsame⟩ := begun_leave a hbegun hmaximum hlimit
    obtain ⟨hbegun, hsame'⟩ := ih hbegun (by rw [hsame.maximum]; exact hmaximum)
    exact ⟨hbegun, hsame.trans hsame'⟩

end

/-! ## The attempt that completes the payload -/

namespace Courier

/-- A client that passes every call on after a while. -/
def prompt (delay : Nat) : Courier Unit := fun _ s => (.forward delay, s.2)

/-- A client that passes every call on takes every window. -/
theorem takes_prompt (delay : Nat) :
    Takes (prompt delay).answer Prod.fst (fun _ => True) delay (fun _ => True) := by
  intro s _ r patience _ htime hok
  refine ⟨((s.1.answerStore r).2, ()), ?_, rfl, trivial⟩
  rw [answer, prompt]
  simp only
  rw [if_neg (Nat.not_lt.mpr htime), hok]
  rfl

/-- What a store holds is served by any client at once. -/
theorem serves_answer {γ : Type} (courier : Courier γ) {s : Store × γ} {ref : String} {data : Bytes}
    (h : s.1.find? ref = some ⟨data.length, data⟩) : Serves courier.answer ref data 0 (· = s) := by
  rintro start rfl offset length patience hoffset _
  refine ⟨start, ?_, rfl⟩
  rw [answer, Store.get_of_find? h (Nat.le_of_lt hoffset)]
  rfl

end Courier

namespace Transfer

/-- **A store that was cut short can be made again.** Attempts to store a payload under a new reference, any
number of them, may cut it into windows of any sizes and may each stop anywhere, because a call fails,
because it is never answered, or because the deadline passes. A transfer of the same payload that meets
no fault then succeeds, whatever its chunk size, and the payload that is fetched from then on, with any
chunk size, is the one that was stored. No other payload changes. -/
theorem store_again (attempts : List Attempt) (t t' : Transfer) (delay : Nat) {ref : String}
    {data : Bytes} {store : Store} (hne : data ≠ []) (hmaximum : data.length ≤ store.maximum)
    (hlimit : store.maximum < offsetLimit) (habsent : store.find? ref = none)
    (htime : t.calls data.length * delay ≤ t.deadline.nanoseconds) :
    ∃ store', (t.store ref data).run (Courier.prompt delay).answer
        (attempted attempts ref data store, ()) = (.ok (), (store', ())) ∧
      (t'.fetch ref data.length).run (Courier.prompt delay).answer (store', ()) =
        (.ok data, (store', ())) ∧
      ∀ other, other ≠ ref → store'.find? other = store.find? other := by
  have hlimit : data.length < offsetLimit := Nat.lt_of_le_of_lt hmaximum hlimit
  -- nothing is a prefix, attempts keep a prefix, and from a prefix the payload is completed
  have hnothing : Begun data (store.find? ref) :=
    ⟨0, Nat.zero_le _, .inl ⟨List.take_zero, habsent⟩⟩
  obtain ⟨⟨k, hk, hholds⟩, hsame⟩ := begun_attempted attempts hlimit hnothing hmaximum
  obtain ⟨⟨store', _⟩, hrun, hwhole, hsame', -⟩ := t.run_store_of_holds (Courier.takes_prompt delay)
    (s := (attempted attempts ref data store, ())) trivial (fun _ _ => trivial) hk hholds
    (by rw [hsame.maximum]; exact hmaximum) hlimit htime
  obtain ⟨s, hfetch, rfl⟩ := t'.run_fetch
    ((Courier.prompt delay).serves_answer (s := (store', ())) (hwhole.eq_some hne))
    (by rw [Nat.mul_zero]; exact Nat.zero_le _) rfl
  exact ⟨store', hrun, hfetch, (hsame.trans hsame').others⟩

/-- Five bytes are cut in twos and stopped after one window, then in threes and stopped after one window.
Cut in twos again, one window has been there before, one in part, and one not. -/
theorem store_again_overlapping :
    attempted [.through (make 2 ⟨10⟩) onceOnly 0, .through (make 3 ⟨10⟩) onceOnly 0] "r"
        [1, 2, 3, 4, 5] (.empty 8) = ⟨8, [("r", ⟨5, [1, 2, 3]⟩)]⟩ ∧
      ∃ store', ((make 2 ⟨10⟩).store "r" [1, 2, 3, 4, 5]).run (Courier.prompt 3).answer
          (⟨8, [("r", ⟨5, [1, 2, 3]⟩)]⟩, ()) = (.ok (), (store', ())) ∧
        ((make 4 ⟨10⟩).fetch "r" 5).run (Courier.prompt 3).answer (store', ()) =
          (.ok [1, 2, 3, 4, 5], (store', ())) := by
  have hleft : attempted [.through (make 2 ⟨10⟩) onceOnly 0, .through (make 3 ⟨10⟩) onceOnly 0] "r"
      [1, 2, 3, 4, 5] (.empty 8) = ⟨8, [("r", ⟨5, [1, 2, 3]⟩)]⟩ := by rfl
  obtain ⟨store', hstore, hfetch, -⟩ := store_again
    [.through (make 2 ⟨10⟩) onceOnly 0, .through (make 3 ⟨10⟩) onceOnly 0] (make 2 ⟨10⟩)
    (make 4 ⟨10⟩) 3 (by decide : ([1, 2, 3, 4, 5] : Bytes) ≠ [])
    (by decide : ([1, 2, 3, 4, 5] : Bytes).length ≤ (Store.empty 8).maximum) (by decide)
    (Store.find?_empty 8 "r") (by decide)
  rw [hleft] at hstore
  exact ⟨hleft, store', hstore, hfetch⟩

end Transfer

end Stowage.Chunk
