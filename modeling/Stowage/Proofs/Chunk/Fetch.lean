import Stowage.Proofs.Chunk.Transcript
import Stowage.Proofs.Chunk.Windows
import Stowage.Proofs.Program
/-!
# Stowage — fetching a payload

A transfer fetches a payload window by window (`fetchFrom_take`). `Serves` says of a world that it
answers every call for a payload with the window asked for, which is what a store that holds the
payload does (`get_of_find?`). In such a world a fetch ends with the payload, whatever the chunk size, if the
deadline leaves time for as many calls as there are windows: `run_fetch`.
-/

namespace Stowage.Chunk

/-- The window of a payload that a call for `length` bytes from `offset` is answered with. -/
def windowAt (data : Bytes) (offset length : Nat) : Window :=
  let stop := min (offset + length) data.length
  ⟨(data.drop offset).take (stop - offset), data.length, data.length ≤ stop⟩

/-- A window ends where the bytes asked for end, or where the payload does. -/
theorem length_windowAt {data : Bytes} {offset : Nat} (h : offset ≤ data.length) (length : Nat) :
    (windowAt data offset length).data.length = min (offset + length) data.length - offset := by
  show ((data.drop offset).take _).length = _
  rw [List.length_take, List.length_drop]
  omega

/-- A window continues the prefix that ends at its offset. -/
theorem take_append_windowAt {data : Bytes} {offset : Nat} (h : offset ≤ data.length)
    (length : Nat) :
    data.take offset ++ (windowAt data offset length).data = data.take (offset + length) := by
  show data.take offset ++ (data.drop offset).take _ = _
  rw [← List.take_add, show offset + (min (offset + length) data.length - offset) =
    min (offset + length) data.length by omega, ← List.take_eq_take_min]

/-- A window is the last one exactly if it reaches the end of the payload. -/
theorem isLast_windowAt (data : Bytes) (offset length : Nat) :
    (windowAt data offset length).isLast = decide (data.length ≤ offset + length) := by
  show decide (data.length ≤ min (offset + length) data.length) = _
  rw [decide_eq_decide]
  omega

/-- A store that holds all of a payload gives its windows. -/
theorem Store.get_of_find? {s : Store} {ref : String} {data : Bytes}
    (h : s.find? ref = some ⟨data.length, data⟩) {offset : Nat} (hoffset : offset ≤ data.length)
    (length : Nat) : s.get ⟨ref, offset, length⟩ = .ok (windowAt data offset length) := by
  have hcomplete : Payload.isComplete ⟨data.length, data⟩ = true := by simp [Payload.isComplete]
  unfold Store.get
  rw [h]
  simp only
  rw [if_neg (by rw [hcomplete]; decide), if_neg (by omega)]
  rfl

/-- A store gives nothing for a reference that it does not have. -/
theorem Store.get_of_none {s : Store} {ref : String} (h : s.find? ref = none)
    (offset length : Nat) : s.get ⟨ref, offset, length⟩ = .error (.notFound ref) := by
  unfold Store.get
  rw [h]

/-- A store gives nothing of a payload before all of it has arrived. -/
theorem Store.get_of_incomplete {s : Store} {ref : String} {p : Payload}
    (h : s.find? ref = some p) (hpart : p.data.length ≠ p.total) (offset length : Nat) :
    s.get ⟨ref, offset, length⟩ = .error (.refused (.incomplete ref p.data.length p.total)) := by
  unfold Store.get
  rw [h]
  exact if_pos (by rwa [Payload.isComplete_iff])

/-- A store gives nothing from beyond the end of a payload. -/
theorem Store.get_of_beyond {s : Store} {ref : String} {p : Payload}
    (h : s.find? ref = some p) (hcomplete : p.data.length = p.total) {offset : Nat}
    (hoffset : p.total < offset) (length : Nat) :
    s.get ⟨ref, offset, length⟩ = .error (.refused (.beyondEnd offset p.total)) := by
  have hwhole : p.isComplete = true := (Payload.isComplete_iff p).mpr hcomplete
  unfold Store.get
  rw [h]
  simp only
  rw [if_neg (by rw [hwhole]; decide), if_pos hoffset]

/-- `Serves world ref data delay Steady`: in a steady state, a call for bytes of the payload under a reference
is answered with its window after the delay, and the state stays steady. -/
def Serves {σ : Type} (world : Answering σ) (ref : String) (data : Bytes) (delay : Nat)
    (Steady : σ → Prop) : Prop :=
  ∀ s, Steady s → ∀ offset length patience, offset < data.length → delay ≤ patience →
    ∃ s', world (.get ⟨ref, offset, length⟩ patience) s =
      (some (delay, .ok (windowAt data offset length)), s') ∧ Steady s'

/-- The same of calls for windows of a single size. -/
def ServesWindows {σ : Type} (world : Answering σ) (ref : String) (data : Bytes) (size delay : Nat)
    (Steady : σ → Prop) : Prop :=
  ∀ s, Steady s → ∀ offset patience, offset < data.length → delay ≤ patience →
    ∃ s', world (.get ⟨ref, offset, size⟩ patience) s =
      (some (delay, .ok (windowAt data offset size)), s') ∧ Steady s'

namespace Transfer

/-- What is missing from an offset on takes one call more than what is missing after the next window. -/
theorem calls_sub (t : Transfer) {offset total : Nat} (h : offset < total) :
    t.calls (total - offset) = t.calls (total - (offset + t.chunkSize)) + 1 := by
  have hone := t.one_le_chunkSize
  unfold calls
  by_cases hlast : total ≤ offset + t.chunkSize
  · rw [show total - (offset + t.chunkSize) = 0 by omega,
      show total - offset + t.chunkSize - 1 = (total - offset - 1) + t.chunkSize by omega,
      Nat.add_div_right _ (by omega), Nat.div_eq_of_lt (by omega), Nat.div_eq_of_lt (by omega)]
  · rw [show total - offset + t.chunkSize - 1 =
      (total - (offset + t.chunkSize) + t.chunkSize - 1) + t.chunkSize by omega,
      Nat.add_div_right _ (by omega)]

/-- The window asked for next is acceptable, and makes the received prefix longer. -/
theorem accept_windowAt (t : Transfer) {data : Bytes} {offset : Nat} (h : offset < data.length) :
    t.accept data.length (data.take offset) (windowAt data offset t.chunkSize) =
      .ok (data.take (offset + t.chunkSize), data.length ≤ offset + t.chunkSize) := by
  have hone := t.one_le_chunkSize
  have hlength := length_windowAt (Nat.le_of_lt h) t.chunkSize
  have hreceived : (data.take offset).length = offset := List.length_take_of_le (Nat.le_of_lt h)
  have hacceptable :
      t.Acceptable data.length (data.take offset).length (windowAt data offset t.chunkSize) := by
    refine ⟨?_, ?_, ?_⟩
    · rw [← List.length_pos_iff, hlength]
      omega
    · rw [hlength]
      omega
    · rw [hreceived, hlength]
      omega
  rw [accept_of_acceptable hacceptable, take_append_windowAt (Nat.le_of_lt h), isLast_windowAt]

/-- A fetch that has received a prefix of the payload asks for the next window. With that it has a longer
prefix, or all of the payload. -/
theorem fetchFrom_take (t : Transfer) (ref : String) {data : Bytes} {offset : Nat}
    (h : offset < data.length) (fuel patience : Nat) :
    ∃ next : (Call.get ⟨ref, offset, t.chunkSize⟩ patience).Reply → Program (Except Failure Bytes),
      t.fetchFrom ref data.length (fuel + 1) (data.take offset) patience =
          .call (.get ⟨ref, offset, t.chunkSize⟩ patience) next ∧
        (∀ spent, next (some (spent, .ok (windowAt data offset t.chunkSize))) =
          if data.length ≤ offset + t.chunkSize then .done (.ok data)
          else t.fetchFrom ref data.length fuel (data.take (offset + t.chunkSize))
            (patience - spent)) ∧
        ∀ spent why, next (some (spent, .error why)) = .done (.error (why.atOffset offset)) := by
  have hreceived : (data.take offset).length = offset := List.length_take_of_le (Nat.le_of_lt h)
  rw [fetchFrom, hreceived, if_pos h]
  refine ⟨_, rfl, fun spent => ?_, fun spent why => rfl⟩
  simp only [t.accept_windowAt h]
  by_cases hlast : data.length ≤ offset + t.chunkSize
  · simp only [hlast, decide_true, if_true]
    rw [List.take_of_length_le hlast, complete, if_pos rfl]
  · simp only [hlast, decide_false, if_false]

/-- Fetching goes on from any prefix of the payload. Induction on the fuel, of which there is at least
as much as bytes are missing. -/
theorem run_fetchFrom {σ : Type} {world : Answering σ} {ref : String} {data : Bytes} {delay : Nat}
    {Steady : σ → Prop} (t : Transfer)
    (hserves : ServesWindows world ref data t.chunkSize delay Steady) :
    ∀ (fuel offset patience : Nat) (s : σ), Steady s → data.length - offset ≤ fuel →
      t.calls (data.length - offset) * delay ≤ patience →
      ∃ s', (t.fetchFrom ref data.length fuel (data.take offset) patience).run world s =
        (.ok data, s') ∧ Steady s' := by
  intro fuel
  induction fuel with
  | zero =>
    intro offset patience s hs hfuel _
    refine ⟨s, ?_, hs⟩
    rw [fetchFrom, List.take_of_length_le (by omega), complete, if_pos rfl]
    rfl
  | succ fuel ih =>
    intro offset patience s hs hfuel htime
    by_cases hmore : offset < data.length
    · obtain ⟨next, hcall, hnext, -⟩ := t.fetchFrom_take ref hmore fuel patience
      rw [t.calls_sub hmore, Nat.add_mul, Nat.one_mul] at htime
      -- one call is spent on the next window
      obtain ⟨s₁, hget, hs₁⟩ := hserves s hs offset patience hmore (by omega)
      rw [hcall, Program.run_call, hget]
      simp only [hnext]
      by_cases hlast : data.length ≤ offset + t.chunkSize
      · rw [if_pos hlast]
        exact ⟨s₁, rfl, hs₁⟩
      · rw [if_neg hlast]
        have hone := t.one_le_chunkSize
        -- the rest is fetched with the time that is left
        exact ih (offset + t.chunkSize) (patience - delay) s₁ hs₁ (by omega) (by omega)
    · refine ⟨s, ?_, hs⟩
      rw [fetchFrom, List.take_of_length_le (by omega), if_neg (by omega), complete, if_pos rfl]
      rfl

/-- **Fetching.** Where the windows of a payload are served, a fetch in time ends with the payload. -/
theorem run_fetch_windows {σ : Type} {world : Answering σ} {ref : String} {data : Bytes} {delay : Nat}
    {Steady : σ → Prop} (t : Transfer)
    (hserves : ServesWindows world ref data t.chunkSize delay Steady)
    (htime : t.calls data.length * delay ≤ t.deadline.nanoseconds) {s : σ} (hs : Steady s) :
    ∃ s', (t.fetch ref data.length).run world s = (.ok data, s') ∧ Steady s' :=
  t.run_fetchFrom hserves data.length 0 t.deadline.nanoseconds s hs (Nat.sub_le ..)
    (by rw [Nat.sub_zero]; exact htime)

/-- A fetch in time gives a payload that is served in every steady state. -/
theorem run_fetch {σ : Type} {world : Answering σ} {ref : String} {data : Bytes} {delay : Nat}
    {Steady : σ → Prop} (t : Transfer) (hserves : Serves world ref data delay Steady)
    (htime : t.calls data.length * delay ≤ t.deadline.nanoseconds) {s : σ} (hs : Steady s) :
    ∃ s', (t.fetch ref data.length).run world s = (.ok data, s') ∧ Steady s' :=
  t.run_fetch_windows (fun s hs offset patience => hserves s hs offset t.chunkSize patience) htime hs

/-- Fetching goes the same way in two worlds that give the same windows. Induction on the fuel. -/
theorem run_fetchFrom_congr {σ τ : Type} {world : Answering σ} {other : Answering τ}
    {Same : σ → τ → Prop} (t : Transfer) (ref : String) (total : Nat)
    (h : ∀ offset patience s s', Same s s' →
      (world (.get ⟨ref, offset, t.chunkSize⟩ patience) s).1 =
          (other (.get ⟨ref, offset, t.chunkSize⟩ patience) s').1 ∧
        Same (world (.get ⟨ref, offset, t.chunkSize⟩ patience) s).2
          (other (.get ⟨ref, offset, t.chunkSize⟩ patience) s').2) :
    ∀ (fuel : Nat) (received : Bytes) (patience : Nat) (s : σ) (s' : τ), Same s s' →
      ((t.fetchFrom ref total fuel received patience).run world s).1 =
          ((t.fetchFrom ref total fuel received patience).run other s').1 ∧
        Same ((t.fetchFrom ref total fuel received patience).run world s).2
          ((t.fetchFrom ref total fuel received patience).run other s').2 := by
  -- induction on the fuel; the replies are equal, so both fetches stop or go on together
  intro fuel
  induction fuel with
  | zero => exact fun _ _ _ _ hsame => ⟨rfl, hsame⟩
  | succ fuel ih =>
    intro received patience s s' hsame
    rw [fetchFrom]
    split
    · obtain ⟨hreply, hnext⟩ := h received.length patience s s' hsame
      rw [Program.run_call, Program.run_call, hreply]
      generalize (other (.get ⟨ref, received.length, t.chunkSize⟩ patience) s').1 = reply
      cases reply with
      | none => exact ⟨rfl, hnext⟩
      | some timed =>
        obtain ⟨spent, result⟩ := timed
        cases result with
        | error why => exact ⟨rfl, hnext⟩
        | ok window =>
          simp only
          split
          · exact ⟨rfl, hnext⟩
          · exact ⟨rfl, hnext⟩
          · exact ih _ _ _ _ hnext
    · exact ⟨rfl, hsame⟩

end Transfer

end Stowage.Chunk
