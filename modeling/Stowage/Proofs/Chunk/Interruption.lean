import Stowage.Proofs.Chunk.Fetch
import Stowage.Proofs.Chunk.History
/-!
# Stowage — stores that are cut short

Between a transfer and a chunk store stands a client (`Courier`) that passes each store call on after
some time, fails it, or never answers it. A transfer through such a client can stop at every call, by
a failure or because its deadline runs out. `run_storeAll_carried` follows the windows up to the call
that stops it: what has arrived by then is a number of full windows, and never all of the payload.
`store_cut_short` says what this means for everybody who shares the store: all of the payload is there
if and only if the transfer said so, and otherwise none of it can be read.
-/

namespace Stowage.Chunk

/-! ## Clients that fail

A client may look at the store before it decides what becomes of a call. So it can stop a transfer at
the worst moment there is, and what follows holds of the worst client. -/

/-- What a client makes of a store call: it passes it on and answers when the store has carried it out,
fails it without asking the store, or never answers. -/
inductive Fate where
  | forward (delay : Nat)
  | fail (delay : Nat) (why : CallError)
  | stall

/-- A client in front of a chunk store. What it makes of a call may depend on the request, on the store,
and on whatever it remembers. -/
abbrev Courier (γ : Type) := StoreRequest → Store × γ → Fate × γ

namespace Courier

variable {γ : Type}

/-- The store behind a client. A call that is not answered within its patience has no effect. -/
def answer (courier : Courier γ) : Answering (Store × γ)
  | .store r patience, s =>
    match courier r s with
    | (.forward delay, memory) =>
      if patience < delay then (none, (s.1, memory))
      else (some (delay, (s.1.answerStore r).1), ((s.1.answerStore r).2, memory))
    | (.fail delay why, memory) =>
      if patience < delay then (none, (s.1, memory))
      else (some (delay, .error why), (s.1, memory))
    | (.stall, memory) => (none, (s.1, memory))
  | .get r _, s => (some (0, s.1.get r), s)
  | .draw, s => ([], s)
  | .send _ _ _, s => (none, s)
  | .input, s => ([], s)
  | .read _, s => (none, s)
  | .change _, s => (none, s)
  | .listen _ _, s => ("", s)

/-- A store call is carried out and answered, or it is neither carried out nor successful. -/
theorem answer_store_cases (courier : Courier γ) (r : StoreRequest) (patience : Nat)
    (s : Store × γ) :
    (∃ spent memory, courier.answer (.store r patience) s =
        (some (spent, (s.1.answerStore r).1), ((s.1.answerStore r).2, memory))) ∨
      (∃ memory, courier.answer (.store r patience) s = (none, (s.1, memory))) ∨
      ∃ spent why memory,
        courier.answer (.store r patience) s = (some (spent, .error why), (s.1, memory)) := by
  rw [answer]
  match courier r s with
  | (.forward delay, memory) =>
    by_cases hlate : patience < delay
    · exact .inr (.inl ⟨memory, if_pos hlate⟩)
    · exact .inl ⟨delay, memory, if_neg hlate⟩
  | (.fail delay why, memory) =>
    by_cases hlate : patience < delay
    · exact .inr (.inl ⟨memory, if_pos hlate⟩)
    · exact .inr (.inr ⟨delay, why, memory, if_neg hlate⟩)
  | (.stall, memory) => exact .inr (.inl ⟨memory, rfl⟩)

end Courier

/-! ## What has arrived

Between two calls, a number of full windows has arrived. The last window is the only one that can
complete the payload, and a transfer that made it with success reports success. -/

/-- The entry of a payload of which a prefix has arrived. There is none before the first byte. -/
def arrived (total : Nat) (stored : Bytes) : Option Payload :=
  if stored = [] then none else some ⟨total, stored⟩

theorem holds_arrived (total : Nat) (stored : Bytes) : Holds (arrived total stored) total stored := by
  unfold arrived
  split
  · next hnil => exact .inl ⟨hnil, rfl⟩
  · exact .inr rfl

theorem arrived_of_ne {stored : Bytes} (h : stored ≠ []) (total : Nat) :
    arrived total stored = some ⟨total, stored⟩ := if_neg h

/-- After a number of full windows that are not the whole payload. -/
theorem arrived_take {data : Bytes} {k size : Nat} (hsize : 1 ≤ size) (h : k * size < data.length)
    (total : Nat) :
    arrived total (data.take (k * size)) =
      if k = 0 then none else some ⟨total, data.take (k * size)⟩ := by
  by_cases hk : k = 0
  · subst hk
    rw [Nat.zero_mul, if_pos rfl]
    rfl
  · have hpos : 0 < k * size := Nat.mul_pos (Nat.pos_of_ne_zero hk) hsize
    have hne : data.take (k * size) ≠ [] := by
      rw [← List.length_pos_iff, List.length_take]
      omega
    rw [if_neg hk, arrived_of_ne hne]

namespace Transfer

variable {γ : Type} {t : Transfer} {ref : String} {total : Nat}

/-- Storing what is left of a payload through a client: either everything arrives and the transfer
succeeds, or the transfer stops before a window, and the windows up to it, all full, have arrived.
Induction on the windows; `k` counts those that came before. -/
theorem run_storeAll_carried (courier : Courier γ) {offset : Nat} {rest : Bytes}
    {windows : List (Nat × Bytes)} (h : Tiles t.chunkSize offset rest windows) :
    ∀ (stored : Bytes) (k patience : Nat) (s : Store × γ), offset = stored.length →
      (rest ≠ [] → stored.length = k * t.chunkSize) → total = (stored ++ rest).length →
      total ≤ s.1.maximum → total < offsetLimit → s.1.find? ref = arrived total stored →
      ∃ result s', (t.storeAll (windows.map (request ref total)) patience).run courier.answer s =
          (result, s') ∧
        (∀ other, other ≠ ref → s'.1.find? other = s.1.find? other) ∧
        ((result = .ok () ∧ s'.1.find? ref = arrived total (stored ++ rest)) ∨
          ∃ k', k' * t.chunkSize < total ∧
            s'.1.find? ref = arrived total ((stored ++ rest).take (k' * t.chunkSize)) ∧
            (result = .error (.timeout t.deadline) ∨
              ∃ why : CallError, result = .error (why.atOffset (k' * t.chunkSize)))) := by
  -- induction on the windows; `k` counts the full ones that have arrived
  induction h with
  | nil offset =>
    intro stored k patience s _ _ _ _ _ hfind
    rw [List.append_nil]
    exact ⟨_, s, rfl, fun _ _ => rfl, .inl ⟨rfl, hfind⟩⟩
  | cons offset chunk rest windows hne hle hfull _ ih =>
    intro stored k patience s hoffset hwhole htotal hmaximum hlimit hfind
    subst hoffset
    have hpos : 0 < chunk.length := List.length_pos_iff.mpr hne
    have hstored : stored.length = k * t.chunkSize := hwhole (by simp [hne])
    have hmore : k * t.chunkSize < total := by
      rw [htotal, List.length_append, List.length_append]
      omega
    have hsofar : (stored ++ (chunk ++ rest)).take (k * t.chunkSize) = stored := by
      rw [← hstored, List.take_left]
    rw [List.map_cons, storeAll, Program.run_call]
    rcases courier.answer_store_cases (request ref total (stored.length, chunk)) patience s with
      ⟨spent, memory, heq⟩ | ⟨memory, heq⟩ | ⟨spent, why, memory, heq⟩
    · -- the store gets the next window, and takes it
      have hholds : Holds (s.1.find? ref) total stored := hfind ▸ holds_arrived total stored
      rw [heq, Store.answerStore_next ref hholds hmaximum hlimit htotal]
      have hnext : (s.1.put ref ⟨total, stored ++ chunk⟩).find? ref =
          arrived total (stored ++ chunk) := by
        rw [Store.find?_put_self, arrived_of_ne (by simp [hne])]
      obtain ⟨result, s', hrun, hothers, hcases⟩ := ih (stored ++ chunk) (k + 1) (patience - spent)
        (s.1.put ref ⟨total, stored ++ chunk⟩, memory) (by rw [List.length_append])
        (fun hrest => by rw [List.length_append, hstored, hfull hrest, Nat.succ_mul])
        (by rw [htotal, List.append_assoc]) (by rw [Store.maximum_put]; exact hmaximum) hlimit hnext
      rw [List.append_assoc] at hcases
      exact ⟨result, s', hrun, fun other hother =>
        (hothers other hother).trans (Store.find?_put_of_ne _ _ hother), hcases⟩
    · -- no answer in time: what has arrived stays
      rw [heq]
      refine ⟨_, _, rfl, fun _ _ => rfl, .inr ⟨k, hmore, ?_, .inl rfl⟩⟩
      rw [hsofar]
      exact hfind
    · rw [heq]
      refine ⟨_, _, rfl, fun _ _ => rfl, .inr ⟨k, hmore, ?_, .inr ⟨why, ?_⟩⟩⟩
      · rw [hsofar]
        exact hfind
      · show Except.error (why.atOffset stored.length) = _
        rw [hstored]

/-- As long as nothing more is stored under the reference, what has arrived cannot be read: there is
nothing, or not everything. -/
theorem get_arrived_take {s : Store} {data : Bytes} {k size : Nat}
    (h : k * size < data.length)
    (hfind : s.find? ref = if k = 0 then none else some ⟨data.length, data.take (k * size)⟩)
    {later : List Store.Operation} (hlater : ∀ r, .store r ∈ later → r.ref ≠ ref)
    (offset length : Nat) :
    (s.performAll later).get ⟨ref, offset, length⟩ =
      .error (if k = 0 ∨ .remove ref ∈ later then .notFound ref
        else .refused (.incomplete ref (k * size) data.length)) := by
  have hentry := Store.find?_performAll_of_no_store hlater s
  rw [hfind] at hentry
  -- removed or never begun, the reference is unknown; otherwise it is there and incomplete
  by_cases hremoved : .remove ref ∈ later
  · rw [if_pos hremoved] at hentry
    rw [if_pos (.inr hremoved)]
    exact Store.get_of_none hentry offset length
  · rw [if_neg hremoved] at hentry
    by_cases hk : k = 0
    · rw [if_pos hk] at hentry
      rw [if_pos (.inl hk)]
      exact Store.get_of_none hentry offset length
    · have hlength : (data.take (k * size)).length = k * size :=
        List.length_take_of_le (Nat.le_of_lt h)
      rw [if_neg hk] at hentry
      rw [if_neg fun hnot => hnot.elim hk hremoved]
      have hget := Store.get_of_incomplete hentry (by simp only [hlength]; omega) offset length
      simp only [hlength] at hget
      exact hget

/-- **A store that is cut short cannot be read.** Whatever the client makes of the calls, and whenever the
deadline runs out: the transfer succeeds if and only if all of the payload is then in the store. If
it fails, a number of full windows has arrived that is not the whole payload, and every later call
for a window fails as long as nothing is stored under the reference again. The payloads of other
references stay as they are in both cases. -/
theorem store_cut_short (courier : Courier γ) (t : Transfer) {ref : String} {data : Bytes}
    {store : Store} (memory : γ) (hne : data ≠ []) (hmaximum : data.length ≤ store.maximum)
    (hlimit : store.maximum < offsetLimit) (habsent : store.find? ref = none) :
    ∃ result store' memory',
      (t.store ref data).run courier.answer (store, memory) = (result, (store', memory')) ∧
        (result = .ok () ↔ store'.find? ref = some ⟨data.length, data⟩) ∧
        (∀ failure, result = .error failure →
          ∃ k, k * t.chunkSize < data.length ∧
            (failure = .timeout t.deadline ∨
              ∃ why : CallError, failure = why.atOffset (k * t.chunkSize)) ∧
            store'.find? ref =
              (if k = 0 then none else some ⟨data.length, data.take (k * t.chunkSize)⟩) ∧
            ∀ later : List Store.Operation, (∀ r, .store r ∈ later → r.ref ≠ ref) →
              ∀ offset length, (store'.performAll later).get ⟨ref, offset, length⟩ =
                .error (if k = 0 ∨ .remove ref ∈ later then .notFound ref
                  else .refused (.incomplete ref (k * t.chunkSize) data.length))) ∧
        ∀ other, other ≠ ref → store'.find? other = store.find? other := by
  obtain ⟨result, ⟨store', memory'⟩, hrun, hothers, hcases⟩ := run_storeAll_carried courier
    (tiles_windows t.one_le_chunkSize data) [] 0 t.deadline.nanoseconds (store, memory) rfl
    (fun _ => by rw [Nat.zero_mul]; rfl) (show data.length = ([] ++ data).length from rfl) hmaximum
    (Nat.lt_of_le_of_lt hmaximum hlimit) habsent
  rw [List.nil_append] at hcases
  refine ⟨result, store', memory', hrun, ?_, ?_, hothers⟩
  · rcases hcases with ⟨hok, hfind⟩ | ⟨k, hmore, hfind, hfailed⟩
    · exact iff_of_true hok (hfind.trans (arrived_of_ne hne _))
    · -- a prefix that ends before the payload does is not the payload
      refine iff_of_false (fun hok => ?_) fun hall => ?_
      · rcases hfailed with hlate | ⟨why, hwhy⟩
        · rw [hlate] at hok
          cases hok
        · rw [hwhy] at hok
          cases hok
      · have hheld := holds_arrived data.length (data.take (k * t.chunkSize))
        rw [← hfind, hall] at hheld
        have hlength : data.length = (data.take (k * t.chunkSize)).length :=
          congrArg List.length hheld.bytes?
        rw [List.length_take] at hlength
        omega
  -- a transfer that failed has left a number of full windows, and fewer than all bytes
  · rintro failure rfl
    rcases hcases with ⟨hok, -⟩ | ⟨k, hmore, hfind, hfailed⟩
    · cases hok
    · rw [arrived_take t.one_le_chunkSize hmore] at hfind
      refine ⟨k, hmore, ?_, hfind, fun later hlater => get_arrived_take hmore hfind hlater⟩
      rcases hfailed with hlate | ⟨why, hwhy⟩
      · cases hlate
        exact .inl rfl
      · cases hwhy
        exact .inr ⟨why, rfl⟩

/-- A client that passes on the first call only. -/
def onceOnly : Courier Nat := fun _ s => if s.2 = 0 then (.forward 3, 1) else (.stall, s.2)

/-- Of three bytes, two arrive before the client stops answering, and nobody can read them. -/
theorem store_cut_short_stalled :
    ∃ store' : Store,
      ((make 2 ⟨10⟩).store "r" [1, 2, 3]).run onceOnly.answer (.empty 8, 0) =
        (.error (.timeout ⟨10⟩), (store', 1)) ∧
      store'.find? "r" = some ⟨3, [1, 2]⟩ ∧
      ∀ offset length, store'.get ⟨"r", offset, length⟩ =
        .error (.refused (.incomplete "r" 2 3)) := by
  obtain ⟨result, store', memory', hrun, -, hfailed, -⟩ :=
    store_cut_short onceOnly (make 2 ⟨10⟩) 0 (by decide : ([1, 2, 3] : Bytes) ≠ [])
      (by decide : ([1, 2, 3] : Bytes).length ≤ (Store.empty 8).maximum) (by decide)
      (Store.find?_empty 8 "r")
  -- the run itself, step by step: the second call is never answered
  have hstopped : ((make 2 ⟨10⟩).store "r" [1, 2, 3]).run onceOnly.answer (.empty 8, 0) =
      (.error (.timeout ⟨10⟩), (⟨8, [("r", ⟨3, [1, 2]⟩)]⟩, 1)) := by rfl
  rw [hstopped] at hrun
  cases hrun
  obtain ⟨k, hk, -, hfind, hread⟩ := hfailed _ rfl
  have hone : k = 1 := by
    have hmore : k * 2 < 3 := hk
    have hsome : k ≠ 0 := by
      rintro rfl
      cases hfind
    omega
  subst hone
  exact ⟨_, hstopped, hfind, fun offset length => hread [] nofun offset length⟩

end Transfer

end Stowage.Chunk
