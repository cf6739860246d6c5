import Mathlib.Tactic.Common
import Stowage.Proofs.Chunk.Fetch
import Stowage.Proofs.Chunk.History
/-!
# Stowage — calls within bounds

A chunk store copies a chunk over bytes that are there, cuts bytes off before it appends, and hands out
a range of bytes. `overwrite?`, `cut?` and `slice?` do so only if the range lies within the bytes, and give
nothing otherwise; `answerStore?` and `get?` are the two calls made of them, where the end of a read is a
sum that stops at the largest offset. `calls_within_bounds` says that in every state that operations
lead to, and for every request, no range is out of bounds, and that a read gives exactly what it asks for.
-/

namespace Stowage.Chunk

/-! ## Ranges of bytes

The three things that are done to bytes, each with the condition under which it is within bounds. Where
the condition fails there is no result, so that a lemma about one of them has to show that it holds. -/

/-- The bytes from `start` to `stop`, if that is a range of them. -/
def slice? (data : Bytes) (start stop : Nat) : Option Bytes :=
  if start ≤ stop ∧ stop ≤ data.length then some ((data.drop start).take (stop - start)) else none

/-- The bytes with a chunk copied over those from `start` to `stop`, if that is a range of them and as
long as the chunk. -/
def overwrite? (data : Bytes) (start stop : Nat) (chunk : Bytes) : Option Bytes :=
  if start ≤ stop ∧ stop ≤ data.length ∧ stop - start = chunk.length then
    some (data.take start ++ chunk ++ data.drop stop)
  else none

/-- The first `size` bytes, if there are as many. -/
def cut? (data : Bytes) (size : Nat) : Option Bytes :=
  if size ≤ data.length then some (data.take size) else none

/-- A sum of offsets that stops at the largest one. -/
def sumUpTo (offset length : Nat) : Nat := min (offset + length) (offsetLimit - 1)

/-- A chunk written over bytes that are there, or after a cut. -/
def write? (data chunk : Bytes) (start stop : Nat) : Option Bytes :=
  if stop ≤ data.length then overwrite? data start stop chunk
  else (cut? data start).map (· ++ chunk)

namespace Store

/-- A store call whose ranges are checked: nothing if one of them is out of bounds. -/
def answerStore? (s : Store) (r : StoreRequest) : Option (Except CallError Unit × Store) :=
  match s.checkWindow r with
  | .error why => some (.error (.refused why), s)
  | .ok stop =>
    match s.checkStored r with
    | .error why => some (.error (.refused why), s)
    | .ok data =>
      (write? data r.data r.offset stop).map fun data => (.ok (), s.put r.ref ⟨r.total, data⟩)

/-- A read whose range is checked: nothing if it is out of bounds. -/
def get? (s : Store) (r : GetRequest) : Option (Except CallError Window) :=
  match s.find? r.ref with
  | none => some (.error (.notFound r.ref))
  | some payload =>
    if ¬payload.isComplete then
      some (.error (.refused (.incomplete r.ref payload.data.length payload.total)))
    else if payload.total < r.offset then
      some (.error (.refused (.beyondEnd r.offset payload.total)))
    else
      let stop := min (sumUpTo r.offset r.length) payload.total
      (slice? payload.data r.offset stop).map fun data =>
        .ok ⟨data, payload.total, payload.total ≤ stop⟩

/-! ## Writes -/

/-- A window that leaves no gap is written within bounds. -/
theorem write?_eq_patch {data chunk : Bytes} {offset : Nat} (h : offset ≤ data.length) :
    write? data chunk offset (offset + chunk.length) = some (patch data chunk offset) := by
  unfold write? patch
  split
  · next hstop =>
    rw [overwrite?, if_pos ⟨Nat.le_add_right .., hstop, by omega⟩]
  · next hstop =>
    rw [cut?, if_pos h]
    rfl

/-- No store call is out of bounds: a window that passed the checks ends no earlier than it starts, and
starts where bytes are. -/
theorem answerStore?_eq (s : Store) (r : StoreRequest) :
    s.answerStore? r = some (s.answerStore r) := by
  unfold answerStore? answerStore store
  cases hwindow : s.checkWindow r with
  | error why => rfl
  | ok stop =>
    cases hstored : s.checkStored r with
    | error why => rfl
    | ok data =>
      obtain ⟨-, rfl⟩ := (checkWindow_eq_ok_iff s r stop).mp hwindow
      obtain ⟨⟨-, hgap⟩, rfl⟩ := (checkStored_eq_ok_iff s r data).mp hstored
      simp only [write?_eq_patch hgap]
      rfl

/-! ## The sizes of payloads

What makes a read safe is an invariant of the store: every payload is at most as long as its total, and
an offset can tell its length. Only accepted windows change a payload, and they keep it. -/

/-- No payload of a store is longer than its total, or longer than an offset can tell. -/
def Bounded (s : Store) : Prop :=
  ∀ ref p, s.find? ref = some p → p.data.length ≤ p.total ∧ p.data.length < offsetLimit

theorem bounded_empty (maximum : Nat) : (empty maximum).Bounded := by
  intro ref p hfind
  cases hfind

/-- An accepted window ends within the total and within the offsets, and so does what it leaves. -/
theorem bounded_received {maximum : Nat} {entry : Option Payload} {r : StoreRequest}
    (haccepts : Accepts maximum entry r)
    (h : ∀ p, entry = some p → p.data.length ≤ p.total ∧ p.data.length < offsetLimit) :
    (received entry r).data.length ≤ r.total ∧ (received entry r).data.length < offsetLimit := by
  have hlength : (received entry r).data.length =
      max (Payload.bytes? entry).length (r.offset + r.data.length) :=
    length_patch _ _ haccepts.no_gap
  have hstop := haccepts.stop_le
  have hlimit := haccepts.stop_lt
  cases entry with
  | none =>
    simp only [Payload.bytes?_none, List.length_nil] at hlength
    omega
  | some p =>
    have hsame := haccepts.same_total p rfl
    obtain ⟨htotal, hdata⟩ := h p rfl
    simp only [Payload.bytes?_some] at hlength
    omega

/-- **One operation** keeps every payload within bounds. -/
theorem Bounded.perform {s : Store} (h : s.Bounded) (op : Operation) : (s.perform op).Bounded := by
  intro ref p hfind
  cases op with
  | get r => exact h ref p hfind
  | remove gone =>
    rw [Store.perform, find?_remove] at hfind
    split at hfind
    · cases hfind
    · exact h ref p hfind
  | store r =>
    rcases s.answerStore_cases r with ⟨haccepts, heq⟩ | ⟨-, why, heq⟩
    · simp only [Store.perform, heq, find?_put] at hfind
      split at hfind
      · cases hfind
        exact bounded_received haccepts (h r.ref)
      · exact h ref p hfind
    · simp only [Store.perform, heq] at hfind
      exact h ref p hfind

/-- **Any number of operations** do. Induction on the operations. -/
theorem Bounded.performAll {ops : List Operation} :
    ∀ {s : Store}, s.Bounded → (s.performAll ops).Bounded := by
  induction ops with
  | nil => exact fun h => h
  | cons op rest ih => exact fun h => ih (h.perform op)

/-! ## Reads

A read of a complete payload clips its range to the payload, so the range is one exactly if it starts
within. -/

/-- `Reads p r w`: a window has the bytes of a payload from the offset that is asked for up to the length
that is asked for, or up to the end of the payload if that comes first. -/
structure Reads (p : Payload) (r : GetRequest) (w : Window) : Prop where
  length : w.data.length = min (r.offset + r.length) p.total - r.offset
  byte : ∀ i, i < w.data.length → w.data[i]? = p.data[r.offset + i]?
  total : w.total = p.total
  last : w.isLast = true ↔ min (r.offset + r.length) p.total = p.total

/-- `Unreadable entry r why`: why no window of an entry is given. -/
inductive Unreadable (entry : Option Payload) (r : GetRequest) : CallError → Prop where
  | notFound (hentry : entry = none) : Unreadable entry r (.notFound r.ref)
  | incomplete (p : Payload) (hentry : entry = some p) (hpart : p.data.length ≠ p.total) :
      Unreadable entry r (.refused (.incomplete r.ref p.data.length p.total))
  | beyondEnd (p : Payload) (hentry : entry = some p) (hcomplete : p.data.length = p.total)
      (hoffset : p.total < r.offset) : Unreadable entry r (.refused (.beyondEnd r.offset p.total))

/-- The window that a complete payload is read with. -/
theorem reads_windowAt {p : Payload} {r : GetRequest} (hcomplete : p.data.length = p.total)
    (hoffset : r.offset ≤ p.total) : Reads p r (windowAt p.data r.offset r.length) := by
  rw [← hcomplete] at hoffset
  refine ⟨?_, ?_, hcomplete, ?_⟩
  · rw [length_windowAt hoffset, hcomplete]
  · intro i hi
    rw [length_windowAt hoffset] at hi
    show ((p.data.drop r.offset).take _)[i]? = _
    rw [List.getElem?_take_of_lt hi, List.getElem?_drop]
  · rw [isLast_windowAt, decide_eq_true_eq]
    omega

/-- A payload that can be read is not found missing, incomplete or too short. -/
theorem Unreadable.not_readable {entry : Option Payload} {r : GetRequest} {why : CallError}
    (h : Unreadable entry r why) :
    ¬∃ p, entry = some p ∧ p.data.length = p.total ∧ r.offset ≤ p.total := by
  rintro ⟨p, rfl, hcomplete, hoffset⟩
  cases h with
  | notFound hentry => cases hentry
  | incomplete q hentry hpart =>
    cases hentry
    exact hpart hcomplete
  | beyondEnd q hentry _ hbeyond =>
    cases hentry
    omega

/-- A read gives a window of a complete payload, or says why it gives none. -/
theorem get_outcome (s : Store) (r : GetRequest) :
    (∃ p, s.find? r.ref = some p ∧ p.data.length = p.total ∧ r.offset ≤ p.total ∧
        s.get r = .ok (windowAt p.data r.offset r.length)) ∨
      ∃ why, Unreadable (s.find? r.ref) r why ∧ s.get r = .error why := by
  cases hfind : s.find? r.ref with
  | none => exact .inr ⟨_, .notFound rfl, get_of_none hfind r.offset r.length⟩
  | some p =>
    by_cases hcomplete : p.data.length = p.total
    · have hwhole : s.find? r.ref = some ⟨p.data.length, p.data⟩ := by rw [hfind, hcomplete]
      by_cases hoffset : r.offset ≤ p.total
      · exact .inl ⟨p, rfl, hcomplete, hoffset, get_of_find? hwhole (hcomplete ▸ hoffset) r.length⟩
      · have hbeyond : p.total < r.offset := Nat.not_le.mp hoffset
        exact .inr ⟨_, .beyondEnd p rfl hcomplete hbeyond,
          get_of_beyond hfind hcomplete hbeyond r.length⟩
    · exact .inr ⟨_, .incomplete p rfl hcomplete,
        get_of_incomplete hfind hcomplete r.offset r.length⟩

/-- No read is out of bounds: a payload that is complete is shorter than the largest offset, so that
a sum that stops there goes beyond the payload. -/
theorem Bounded.get?_eq {s : Store} (h : s.Bounded) (r : GetRequest) : s.get? r = some (s.get r) := by
  unfold get? get
  cases hfind : s.find? r.ref with
  | none => rfl
  | some p =>
    simp only [Payload.isComplete_iff]
    split
    · rfl
    · next hcomplete =>
      split
      · rfl
      · next hoffset =>
        have hlimit := (h r.ref p hfind).2
        have hcomplete := not_not.mp hcomplete
        have hstop : min (sumUpTo r.offset r.length) p.total = min (r.offset + r.length) p.total := by
          unfold sumUpTo
          omega
        rw [hstop, slice?, if_pos (by omega)]
        rfl

/-! ## Both calls -/

/-- **Calls stay within bounds, and reads are exact.** In every state that operations lead to, no payload
is longer than its total, and for every request the ranges of a store call and of a read lie within the
bytes they are taken from, so that either call goes through with the answer it has. A read is answered
with a window exactly if there is a complete payload that does not end before the offset; the window
has the bytes from there up to the length that is asked for or to the end of the payload, the total, and
says that it is the last exactly if it ends there. Otherwise the answer says what is missing. A read
changes nothing. -/
theorem calls_within_bounds (maximum : Nat) (ops : List Operation) :
    let store := (Store.empty maximum).performAll ops
    store.Bounded ∧ (∀ r, store.answerStore? r = some (store.answerStore r)) ∧
      ∀ r, store.get? r = some (store.get r) ∧
        ((∃ w, store.get r = .ok w) ↔
          ∃ p, store.find? r.ref = some p ∧ p.data.length = p.total ∧ r.offset ≤ p.total) ∧
        (∀ w, store.get r = .ok w → ∃ p, store.find? r.ref = some p ∧ Reads p r w) ∧
        (∀ why, store.get r = .error why → Unreadable (store.find? r.ref) r why) ∧
        store.perform (.get r) = store := by
  intro store
  have hbounded : store.Bounded := (bounded_empty maximum).performAll
  refine ⟨hbounded, store.answerStore?_eq, fun r => ⟨hbounded.get?_eq r, ?_⟩⟩
  -- every read gives a window or names a reason, so each clause is looked at in both cases
  rcases store.get_outcome r with ⟨p, hfind, hcomplete, hoffset, hget⟩ | ⟨why, hunreadable, hget⟩
  · have hreads := reads_windowAt hcomplete hoffset
    refine ⟨iff_of_true ⟨_, hget⟩ ⟨p, hfind, hcomplete, hoffset⟩, fun w hw => ?_,
      fun why hwhy => ?_, rfl⟩
    · rw [hget] at hw
      cases hw
      exact ⟨p, hfind, hreads⟩
    · rw [hget] at hwhy
      cases hwhy
  · refine ⟨iff_of_false ?_ hunreadable.not_readable, fun w hw => ?_, fun why' hwhy => ?_, rfl⟩
    · rintro ⟨w, hw⟩
      rw [hget] at hw
      cases hw
    · rw [hget] at hw
      cases hw
    · rw [hget] at hwhy
      cases hwhy
      exact hunreadable

/-- A length that would go round past the largest offset reads up to the end. -/
example : (Store.mk 4 [("r", ⟨2, [97, 98]⟩)]).get? ⟨"r", 1, offsetLimit - 1⟩ =
    some (.ok ⟨[98], 2, true⟩) := by decide

end Store

end Stowage.Chunk
