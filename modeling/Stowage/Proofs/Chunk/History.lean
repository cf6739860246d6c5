import Mathlib.Data.List.Induction
import Stowage.Proofs.Chunk.Entry
/-!
# Stowage — the history of a chunk store

A chunk store forgets the requests it accepted and keeps one byte string for each reference. This
module sets the two side by side: a `History` runs any operations on a store and records the
requests that were accepted since the payload was last removed. `Reflects` relates an entry to such
a record, and `reflects_run` says that it holds after every run: a store is a byte map in which the
last writer wins.
-/

namespace Stowage.Chunk

/-- The end of the window a request writes. -/
def StoreRequest.stop (r : StoreRequest) : Nat := r.offset + r.data.length

namespace Store

/-- An operation on a chunk store: the calls of its clients, and the removal by its owner. -/
inductive Operation where
  | store (r : StoreRequest)
  | get (r : GetRequest)
  | remove (ref : String)
deriving DecidableEq, Repr

/-- The reference an operation is about. -/
def Operation.ref : Operation → String
  | .store r => r.ref
  | .get r => r.ref
  | .remove ref => ref

/-- The store after an operation. -/
def perform (s : Store) : Operation → Store
  | .store r => (s.answerStore r).2
  | .get _ => s
  | .remove ref => s.remove ref

/-- An operation touches no entry but the one of its reference. -/
theorem find?_perform_of_ne (s : Store) (op : Operation) {ref : String} (h : ref ≠ op.ref) :
    (s.perform op).find? ref = s.find? ref := by
  cases op with
  | store r => exact s.find?_answerStore_of_ne r h
  | get r => rfl
  | remove gone =>
    have hne : ref ≠ gone := h
    rw [perform, find?_remove, if_neg hne]

@[simp] theorem maximum_perform (s : Store) (op : Operation) :
    (s.perform op).maximum = s.maximum := by
  cases op with
  | store r => exact s.maximum_answerStore r
  | get r => rfl
  | remove ref => rfl

/-! ## Growth

A payload under a reference is never replaced while it is there: requests only add to it or write over
it. What stays true of it is an order on payloads, which every accepted request goes up in. -/

/-- `Grows before after`: the payload keeps its total, gets no shorter, and stays complete. -/
structure Grows (before after : Payload) : Prop where
  total : after.total = before.total
  length : before.data.length ≤ after.data.length
  complete : before.isComplete → after.isComplete

theorem Grows.refl (p : Payload) : Grows p p := ⟨rfl, Nat.le_refl _, id⟩

theorem Grows.trans {p q r : Payload} (hpq : Grows p q) (hqr : Grows q r) : Grows p r :=
  ⟨hqr.total.trans hpq.total, Nat.le_trans hpq.length hqr.length, fun h => hqr.complete (hpq.complete h)⟩

/-- A payload grows when a request for it is accepted: what is complete has no room left, so only
its bytes can change. -/
theorem grows_received {maximum : Nat} {p : Payload} {r : StoreRequest}
    (h : Accepts maximum (some p) r) : Grows p (received (some p) r) := by
  have htotal : p.total = r.total := h.same_total p rfl
  have hgap : r.offset ≤ p.data.length := h.no_gap
  have hstop : r.offset + r.data.length ≤ r.total := h.stop_le
  have hlength : (received (some p) r).data.length =
      max p.data.length (r.offset + r.data.length) := length_patch p.data r.data hgap
  refine ⟨htotal.symm, by omega, fun hcomplete => ?_⟩
  rw [Payload.isComplete_iff] at hcomplete ⊢
  have hreceived : (received (some p) r).total = r.total := rfl
  omega

/-- As long as its payload is not removed, an entry stays and grows. -/
theorem find?_perform_grows {s : Store} {op : Operation} {ref : String} {p : Payload}
    (hfind : s.find? ref = some p) (hop : op ≠ .remove ref) :
    ∃ q, (s.perform op).find? ref = some q ∧ Grows p q := by
  by_cases hne : ref ≠ op.ref
  · exact ⟨p, by rw [find?_perform_of_ne s op hne, hfind], Grows.refl p⟩
  · rw [not_not] at hne
    subst hne
    cases op with
    | store r =>
      -- an accepted request patches the payload, a refused one changes nothing
      rcases s.answerStore_cases r with ⟨haccepts, heq⟩ | ⟨-, why, heq⟩
      · have hfind' : s.find? r.ref = some p := hfind
        rw [hfind'] at haccepts heq
        refine ⟨received (some p) r, ?_, grows_received haccepts⟩
        simp only [perform, Operation.ref, heq, find?_put_self]
      · refine ⟨p, ?_, Grows.refl p⟩
        simp only [perform, heq]
        exact hfind
    | get r => exact ⟨p, hfind, Grows.refl p⟩
    | remove gone => exact absurd rfl hop

/-- The store after a sequence of operations. -/
def performAll (s : Store) (ops : List Operation) : Store := ops.foldl perform s

@[simp] theorem maximum_performAll (ops : List Operation) :
    ∀ s : Store, (s.performAll ops).maximum = s.maximum := by
  induction ops with
  | nil => exact fun _ => rfl
  | cons op rest ih => exact fun s => (ih (s.perform op)).trans (s.maximum_perform op)

/-- Over any run without a removal, an entry stays and grows. -/
theorem find?_performAll_grows {ops : List Operation} {ref : String}
    (hops : ∀ op ∈ ops, op ≠ .remove ref) :
    ∀ {s : Store} {p : Payload}, s.find? ref = some p →
      ∃ q, (s.performAll ops).find? ref = some q ∧ Grows p q := by
  induction ops with
  | nil => intro s p hfind; exact ⟨p, hfind, Grows.refl p⟩
  | cons op rest ih =>
    intro s p hfind
    obtain ⟨q, hq, hpq⟩ := find?_perform_grows hfind (hops op (List.mem_cons_self ..))
    obtain ⟨r, hr, hqr⟩ := ih (fun o ho => hops o (List.mem_cons_of_mem _ ho)) hq
    exact ⟨r, hr, hpq.trans hqr⟩

/-- Over any run that stores nothing under a reference, its entry stays as it is or is removed. -/
theorem find?_performAll_of_no_store {ops : List Operation} {ref : String}
    (hops : ∀ r, .store r ∈ ops → r.ref ≠ ref) :
    ∀ s : Store, (s.performAll ops).find? ref =
      if .remove ref ∈ ops then none else s.find? ref := by
  induction ops with
  | nil => exact fun s => rfl
  | cons op rest ih =>
    intro s
    have hrest := ih (fun r hr => hops r (List.mem_cons_of_mem _ hr)) (s.perform op)
    show ((s.perform op).performAll rest).find? ref = _
    rw [hrest]
    by_cases hlater : .remove ref ∈ rest
    · rw [if_pos hlater, if_pos (List.mem_cons_of_mem _ hlater)]
    · -- nothing happens to the entry later, so this operation decides
      rw [if_neg hlater]
      cases op with
      | store r =>
        have hne : ref ≠ r.ref := (hops r (List.mem_cons_self ..)).symm
        rw [find?_perform_of_ne s (.store r) hne]
        simp [hlater]
      | get r => simp [hlater, perform]
      | remove gone => simp [hlater, perform, find?_remove]

end Store

/-! ## Histories

Beside the store runs a record of the requests it has accepted, the latest first. An entry says nothing
that the record does not: its length is how far the requests reach, and each byte is the one that was
written last. -/

/-- A store with the requests it accepted for every reference since the payload was last removed,
the latest first. -/
structure History where
  store : Store
  accepted : String → List StoreRequest

namespace History

/-- What has been accepted after an operation. A request counts if it was answered without a
refusal. -/
def record (h : History) : Store.Operation → String → List StoreRequest
  | .store r, ref =>
    match (h.store.answerStore r).1 with
    | .ok () => if ref = r.ref then r :: h.accepted ref else h.accepted ref
    | .error _ => h.accepted ref
  | .get _, ref => h.accepted ref
  | .remove gone, ref => if ref = gone then [] else h.accepted ref

/-- The history after one more operation. -/
def next (h : History) (op : Store.Operation) : History := ⟨h.store.perform op, h.record op⟩

/-- The history of a store that has seen nothing. -/
def start (maximum : Nat) : History := ⟨.empty maximum, fun _ => []⟩

/-- The history of a run from an empty store. -/
def run (maximum : Nat) (ops : List Store.Operation) : History := ops.foldl next (start maximum)

/-- How far the accepted requests reach. -/
def furthest : List StoreRequest → Nat
  | [] => 0
  | r :: log => max r.stop (furthest log)

/-- The byte that the latest request covering a position has written there. -/
def lastWrite : List StoreRequest → Nat → Option UInt8
  | [], _ => none
  | r :: log, i => if r.offset ≤ i ∧ i < r.stop then r.data[i - r.offset]? else lastWrite log i

/-- `Reflects maximum entry log`: the entry of a reference is what the accepted requests make of it
when the last writer of a position wins. -/
structure Reflects (maximum : Nat) (entry : Option Payload) (log : List StoreRequest) : Prop where
  present : entry.isSome ↔ log ≠ []
  total : ∀ p, entry = some p → ∀ r ∈ log, r.total = p.total
  length : ∀ p, entry = some p → p.data.length = furthest log
  byte : ∀ p, entry = some p → ∀ i, p.data[i]? = lastWrite log i
  bounded : ∀ p, entry = some p → p.data.length ≤ p.total ∧ p.total ≤ maximum

theorem Reflects.none (maximum : Nat) : Reflects maximum none [] := by
  constructor <;> simp

/-- Where there is no entry, the record is empty. -/
theorem Reflects.eq_nil {maximum : Nat} {log : List StoreRequest}
    (h : Reflects maximum .none log) : log = [] := by
  by_contra hne
  exact absurd (h.present.mpr hne) (by simp)

/-- What is there is as long as the accepted requests reach, with or without an entry. -/
theorem Reflects.length_bytes? {maximum : Nat} {entry : Option Payload} {log : List StoreRequest}
    (h : Reflects maximum entry log) : (Payload.bytes? entry).length = furthest log := by
  cases entry with
  | none =>
    rw [h.eq_nil]
    rfl
  | some p => exact h.length p rfl

/-- A byte is there exactly if a request wrote it, with or without an entry. -/
theorem Reflects.getElem?_bytes? {maximum : Nat} {entry : Option Payload}
    {log : List StoreRequest} (h : Reflects maximum entry log) (i : Nat) :
    (Payload.bytes? entry)[i]? = lastWrite log i := by
  cases entry with
  | none =>
    rw [h.eq_nil]
    rfl
  | some p => exact h.byte p rfl i

/-- Accepting one more request keeps the entry and the record in step. -/
theorem Reflects.cons {maximum : Nat} {entry : Option Payload} {log : List StoreRequest}
    {r : StoreRequest} (h : Reflects maximum entry log)
    (haccepts : Store.Accepts maximum entry r) :
    Reflects maximum (some (Store.received entry r)) (r :: log) where
  present := by simp
  total := by
    rintro p ⟨⟩ q hq
    rcases List.mem_cons.mp hq with rfl | hmem
    · rfl
    · obtain ⟨old, rfl⟩ := Option.isSome_iff_exists.mp
        (h.present.mpr (List.ne_nil_of_mem hmem))
      rw [h.total old rfl q hmem, haccepts.same_total old rfl]
      rfl
  length := by
    rintro p ⟨⟩
    have hpatch := Store.length_patch (Payload.bytes? entry) r.data haccepts.no_gap
    rw [h.length_bytes?] at hpatch
    rw [furthest, StoreRequest.stop, Nat.max_comm]
    exact hpatch
  byte := by
    rintro p ⟨⟩ i
    have hpatch := Store.getElem?_patch (Payload.bytes? entry) r.data haccepts.no_gap i
    rw [h.getElem?_bytes?] at hpatch
    exact hpatch
  bounded := by
    rintro p ⟨⟩
    have hpatch := Store.length_patch (Payload.bytes? entry) r.data haccepts.no_gap
    refine ⟨?_, haccepts.total_le⟩
    -- what was there before is within the same total
    have hold : (Payload.bytes? entry).length ≤ r.total := by
      cases entry with
      | none => simp
      | some old =>
        rw [← haccepts.same_total old rfl]
        exact (h.bounded old rfl).1
    have hstop := haccepts.stop_le
    show (Store.patch (Payload.bytes? entry) r.data r.offset).length ≤ r.total
    omega

/-- **One operation** keeps the entries and the records in step, under every reference. -/
theorem reflects_next {h : History} (op : Store.Operation)
    (hall : ∀ ref, Reflects h.store.maximum (h.store.find? ref) (h.accepted ref)) (ref : String) :
    Reflects (h.next op).store.maximum ((h.next op).store.find? ref) ((h.next op).accepted ref) := by
  have hmaximum : (h.next op).store.maximum = h.store.maximum := h.store.maximum_perform op
  rw [hmaximum]
  -- a read changes neither, a removal empties both, and a store call enters both or neither
  cases op with
  | get r => exact hall ref
  | remove gone =>
    simp only [next, record, Store.perform, Store.find?_remove]
    split
    · exact Reflects.none _
    · exact hall ref
  | store r =>
    simp only [next, record, Store.perform]
    rcases h.store.answerStore_cases r with ⟨haccepts, heq⟩ | ⟨-, why, heq⟩
    · rw [heq]
      simp only [Store.find?_put]
      split
      · next hsame =>
        subst hsame
        exact (hall r.ref).cons haccepts
      · exact hall ref
    · rw [heq]
      exact hall ref

/-- After every run from an empty store, every entry is what the accepted requests make of it. -/
theorem reflects_run (maximum : Nat) (ops : List Store.Operation) :
    (run maximum ops).store.maximum = maximum ∧
      ∀ ref, Reflects maximum ((run maximum ops).store.find? ref)
        ((run maximum ops).accepted ref) := by
  induction ops using List.reverseRecOn with
  | nil => exact ⟨rfl, fun ref => Reflects.none maximum⟩
  | append_singleton ops op ih =>
    obtain ⟨hmaximum, hall⟩ := ih
    have hrun : run maximum (ops ++ [op]) = (run maximum ops).next op := by
      rw [run, List.foldl_append]
      rfl
    rw [hrun]
    -- the bound of the invariant is the maximum, which no operation changes
    have hnext : ((run maximum ops).next op).store.maximum = maximum :=
      (Store.maximum_perform _ op).trans hmaximum
    refine ⟨hnext, fun ref => ?_⟩
    have hstep := reflects_next (h := run maximum ops) op (by rw [hmaximum]; exact hall) ref
    rwa [hnext] at hstep

/-- The store of a history is the store after the operations themselves. -/
theorem store_run (maximum : Nat) (ops : List Store.Operation) :
    (run maximum ops).store = (Store.empty maximum).performAll ops := by
  -- stated for any history, so that the induction can go from the left
  suffices h : ∀ h : History, (ops.foldl next h).store = h.store.performAll ops from h _
  induction ops with
  | nil => intro h; rfl
  | cons op rest ih => intro h; exact ih (h.next op)

/-- **A chunk store is a byte map in which the last writer wins.** After any operations on an empty
store, the entry of every reference is what the requests accepted since its last removal make of
it; no operation touches the entry of another reference; and until the next removal a payload only
grows, and stays complete once it is. -/
theorem lastWriterWins (maximum : Nat) (ops : List Store.Operation) (ref : String) :
    let store := (Store.empty maximum).performAll ops
    Reflects maximum (store.find? ref) ((run maximum ops).accepted ref) ∧
      (∀ op : Store.Operation, ref ≠ op.ref → (store.perform op).find? ref = store.find? ref) ∧
      (∀ later : List Store.Operation, (∀ op ∈ later, op ≠ .remove ref) →
        ∀ p, store.find? ref = some p →
          ∃ q, (store.performAll later).find? ref = some q ∧ Store.Grows p q) := by
  intro store
  refine ⟨?_, fun op hne => store.find?_perform_of_ne op hne, fun later hlater p hfind => ?_⟩
  · have h := (reflects_run maximum ops).2 ref
    rwa [store_run] at h
  · exact Store.find?_performAll_grows hlater hfind

end History

end Stowage.Chunk
