import Stowage.Chunk.Transfer
import Stowage.Proofs.Chunk.Entry
/-!
# Stowage — the windows of a payload

A transfer stores a payload window by window. `Tiles` says, without fuel and without offsets being
computed, what it means that windows cut a payload: they lie side by side, each as long as the
chunk size unless it is the last. `tiles_windows` says that the windows of a transfer do. A store that
holds a prefix of the payload takes the next window and then holds a longer prefix
(`Store.answerStore_next`); it also takes a window that it has had before, all or part of it, and then
holds no less (`Store.answerStore_window`). What is true of a whole transfer follows by induction on
`Tiles`.
-/

namespace Stowage.Chunk

namespace Transfer

/-- `Tiles size offset data windows`: the windows cut `data`, which starts at `offset`, into pieces of
`size` bytes, of which only the last may be shorter. -/
inductive Tiles (size : Nat) : Nat → Bytes → List (Nat × Bytes) → Prop where
  | nil (offset : Nat) : Tiles size offset [] []
  | cons (offset : Nat) (chunk rest : Bytes) (windows : List (Nat × Bytes))
      (hne : chunk ≠ []) (hle : chunk.length ≤ size) (hfull : rest ≠ [] → chunk.length = size)
      (hrest : Tiles size (offset + chunk.length) rest windows) :
      Tiles size offset (chunk ++ rest) ((offset, chunk) :: windows)

/-- The windows from an offset on cut what they are taken from. Induction on the fuel; where a window
is cut short nothing is left, so the offset of the next one does not matter. -/
theorem tiles_windowsFrom {size : Nat} (hsize : 1 ≤ size) :
    ∀ (fuel offset : Nat) (data : Bytes), data.length ≤ fuel →
      Tiles size offset data (windowsFrom size fuel offset data) := by
  intro fuel
  induction fuel with
  | zero =>
    intro offset data hfuel
    have hnil : data = [] := List.eq_nil_of_length_eq_zero (by omega)
    subst hnil
    exact .nil offset
  | succ fuel ih =>
    intro offset data hfuel
    cases data with
    | nil => exact .nil offset
    | cons b data =>
      rw [windowsFrom]
      set whole := b :: data with hwhole
      have hpos : 0 < whole.length := by simp [hwhole]
      have hne : whole.take size ≠ [] := by
        intro h
        have := congrArg List.length h
        simp only [List.length_take, List.length_nil] at this
        omega
      have hle : (whole.take size).length ≤ size := by
        rw [List.length_take]
        omega
      have hfull : whole.drop size ≠ [] → (whole.take size).length = size := by
        intro h
        have := List.length_pos_iff.mpr h
        rw [List.length_drop] at this
        rw [List.length_take]
        omega
      have hrest : Tiles size (offset + (whole.take size).length) (whole.drop size)
          (windowsFrom size fuel (offset + size) (whole.drop size)) := by
        -- a window that was cut short is the last one: nothing is left to place after it
        by_cases hlast : whole.drop size = []
        · rw [hlast]
          cases fuel <;> exact .nil _
        · rw [hfull hlast]
          exact ih _ _ (by rw [List.length_drop]; omega)
      have hcons := Tiles.cons offset _ _ _ hne hle hfull hrest
      rwa [List.take_append_drop] at hcons

/-- The windows of a payload cut it from its start. -/
theorem tiles_windows {size : Nat} (hsize : 1 ≤ size) (data : Bytes) :
    Tiles size 0 data (windows size data) :=
  tiles_windowsFrom hsize data.length 0 data (Nat.le_refl _)

/-- The number of calls it takes to move a payload of `total` bytes. -/
def calls (t : Transfer) (total : Nat) : Nat := (total + t.chunkSize - 1) / t.chunkSize

theorem calls_zero (t : Transfer) : t.calls 0 = 0 := by
  have hone := t.one_le_chunkSize
  exact Nat.div_eq_of_lt (by omega)

/-- There is a window for every chunk size begun. -/
theorem Tiles.length_windows {size offset : Nat} {data : Bytes} {ws : List (Nat × Bytes)}
    (hsize : 1 ≤ size) (h : Tiles size offset data ws) :
    ws.length = (data.length + size - 1) / size := by
  induction h with
  | nil offset =>
    have hlt : (0 + size - 1) < size := by omega
    simpa using (Nat.div_eq_of_lt hlt).symm
  | cons offset chunk rest ws hne hle hfull hrest ih =>
    have hpos : 0 < chunk.length := List.length_pos_iff.mpr hne
    rw [List.length_cons, List.length_append, ih]
    -- only the last window may be shorter than the chunk size
    by_cases hlast : rest = []
    · subst hlast
      rw [List.length_nil, show (0 + size - 1) / size = 0 from Nat.div_eq_of_lt (by omega)]
      rw [show chunk.length + 0 + size - 1 = (chunk.length - 1) + size by omega,
        Nat.add_div_right _ (by omega), Nat.div_eq_of_lt (by omega)]
    · rw [hfull hlast, show size + rest.length + size - 1 = (rest.length + size - 1) + size by omega,
        Nat.add_div_right _ (by omega)]

/-- The request for a window of a payload of `total` bytes. -/
def request (ref : String) (total : Nat) (w : Nat × Bytes) : StoreRequest :=
  ⟨ref, w.2, w.1, total, total ≤ w.1 + w.2.length⟩

end Transfer

/-! ## A payload that arrives in order

Windows that come in order, with no gap between them, keep a prefix of the payload under its reference.
`Holds` says which one, and each window makes it longer. -/

/-- `Holds entry total stored`: of a payload of `total` bytes, the prefix `stored` has arrived. An
empty prefix leaves no trace. -/
def Holds (entry : Option Payload) (total : Nat) (stored : Bytes) : Prop :=
  (stored = [] ∧ entry = none) ∨ entry = some ⟨total, stored⟩

theorem Holds.bytes? {entry : Option Payload} {total : Nat} {stored : Bytes}
    (h : Holds entry total stored) : Payload.bytes? entry = stored := by
  rcases h with ⟨rfl, rfl⟩ | rfl <;> rfl

theorem Holds.total {entry : Option Payload} {total : Nat} {stored : Bytes}
    (h : Holds entry total stored) {p : Payload} (hp : entry = some p) : p.total = total := by
  rcases h with ⟨-, rfl⟩ | rfl
  · cases hp
  · cases hp
    rfl

/-- What is left of a payload that is not empty when all of it has arrived. -/
theorem Holds.eq_some {entry : Option Payload} {total : Nat} {stored : Bytes}
    (h : Holds entry total stored) (hne : stored ≠ []) : entry = some ⟨total, stored⟩ := by
  rcases h with ⟨hnil, -⟩ | heq
  · exact absurd hnil hne
  · exact heq

/-- A store accepts a window of a payload within its maximum that leaves no gap. -/
theorem accepts_window {maximum total offset : Nat} {entry : Option Payload} {stored chunk : Bytes}
    (ref : String) (h : Holds entry total stored) (hmaximum : total ≤ maximum)
    (hlimit : total < offsetLimit) (hoffset : offset ≤ stored.length)
    (hstop : offset + chunk.length ≤ total) :
    Store.Accepts maximum entry (Transfer.request ref total (offset, chunk)) := by
  refine ⟨hmaximum, Nat.lt_of_le_of_lt hstop hlimit, hstop, ?_, fun p hp => h.total hp, ?_⟩
  · intro hlast
    have hle : total ≤ offset + chunk.length := of_decide_eq_true hlast
    exact Nat.le_antisymm hstop hle
  · rw [h.bytes?]
    exact hoffset

/-- A window of a payload written over a prefix of it that leaves no gap gives a prefix: the longer one of
the old prefix and the one that the window ends. -/
theorem Store.patch_take {data before chunk rest : Bytes} {k : Nat}
    (hdata : data = before ++ (chunk ++ rest)) (hk : before.length ≤ k) :
    patch (data.take k) chunk before.length = data.take (max k (before.length + chunk.length)) := by
  have hbefore : (data.take k).take before.length = before := by
    rw [List.take_take, Nat.min_eq_left hk, hdata, List.take_left]
  have hstop : data.take (before.length + chunk.length) = before ++ chunk := by
    rw [hdata, ← List.append_assoc, ← List.length_append, List.take_left]
  unfold patch
  rw [hbefore, List.length_take]
  split
  · next hle =>
    -- the window lies within the prefix, which has its bytes already
    have hwithin : before.length + chunk.length ≤ k := by omega
    have hsame : (data.take k).take (before.length + chunk.length) = before ++ chunk := by
      rw [List.take_take, Nat.min_eq_left hwithin, hstop]
    rw [← hsame, List.take_append_drop, Nat.max_eq_left hwithin]
  · next hbeyond =>
    have hlength : before.length + chunk.length ≤ data.length := by
      rw [hdata, List.length_append, List.length_append]
      omega
    rw [Nat.max_eq_right (by omega), hstop]

/-- What a window leaves when it is sent to a store that holds a prefix, some of it sent before. -/
theorem received_window {total k : Nat} {entry : Option Payload} {data before chunk rest : Bytes}
    (ref : String) (h : Holds entry total (data.take k)) (hdata : data = before ++ (chunk ++ rest))
    (hk : before.length ≤ k) :
    Store.received entry (Transfer.request ref total (before.length, chunk)) =
      ⟨total, data.take (max k (before.length + chunk.length))⟩ := by
  unfold Store.received
  rw [h.bytes?]
  exact congrArg (Payload.mk total) (Store.patch_take hdata hk)

/-- Once it is accepted, the next window makes the prefix longer. -/
theorem received_next {total : Nat} {entry : Option Payload} {stored : Bytes} (chunk : Bytes)
    (ref : String) (h : Holds entry total stored) :
    Store.received entry (Transfer.request ref total (stored.length, chunk)) =
      ⟨total, stored ++ chunk⟩ := by
  have hdata : stored ++ chunk = stored ++ (chunk ++ []) := by rw [List.append_nil]
  have hprefix : Holds entry total ((stored ++ chunk).take stored.length) := by
    rwa [List.take_left]
  rw [received_window ref hprefix hdata (Nat.le_refl _), Nat.max_eq_right (Nat.le_add_right ..),
    ← List.length_append, List.take_length]

/-- A store answers a window with success if it leaves no gap, and holds no less from then on. -/
theorem Store.answerStore_window {s : Store} {data before chunk rest : Bytes} {k : Nat} (ref : String)
    (h : Holds (s.find? ref) data.length (data.take k)) (hdata : data = before ++ (chunk ++ rest))
    (hk : before.length ≤ k) (hmaximum : data.length ≤ s.maximum) (hlimit : data.length < offsetLimit) :
    s.answerStore (Transfer.request ref data.length (before.length, chunk)) =
      (.ok (), s.put ref ⟨data.length, data.take (max k (before.length + chunk.length))⟩) := by
  have hlength : data.length = before.length + (chunk.length + rest.length) := by
    rw [hdata, List.length_append, List.length_append]
  have haccepts : Accepts s.maximum (s.find? ref)
      (Transfer.request ref data.length (before.length, chunk)) :=
    accepts_window ref h hmaximum hlimit (by rw [List.length_take]; omega) (by omega)
  rw [Store.answerStore_of_accepts haccepts]
  exact congrArg (fun payload => (Except.ok (), s.put ref payload)) (received_window ref h hdata hk)

/-- A store answers the next window with success, and holds a longer prefix from then on. -/
theorem Store.answerStore_next {s : Store} {total : Nat} {stored chunk rest : Bytes} (ref : String)
    (h : Holds (s.find? ref) total stored) (hmaximum : total ≤ s.maximum)
    (hlimit : total < offsetLimit) (htotal : total = (stored ++ (chunk ++ rest)).length) :
    s.answerStore (Transfer.request ref total (stored.length, chunk)) =
      (.ok (), s.put ref ⟨total, stored ++ chunk⟩) := by
  rw [List.length_append, List.length_append] at htotal
  have haccepts : Accepts s.maximum (s.find? ref)
      (Transfer.request ref total (stored.length, chunk)) :=
    accepts_window ref h hmaximum hlimit (Nat.le_refl _) (by omega)
  rw [Store.answerStore_of_accepts haccepts]
  exact congrArg (fun payload => (Except.ok (), s.put ref payload)) (received_next chunk ref h)

end Stowage.Chunk
