import Stowage.Chunk.Store
import Stowage.Proofs.Assoc
/-!
# Stowage — the entries of a chunk store

A chunk store is a finite map from references to payloads. This module says what every operation
does to the entry of a single reference: `find?_put` and `find?_remove` for the map itself,
`store_eq_ok_iff` for the conditions under which a request is accepted, and `answerStore_cases` for
what a store call does. Nothing after this module unfolds the list of payloads.
-/

namespace Stowage.Chunk

/-- The bytes that are there under a reference: none if there is no entry. -/
def Payload.bytes? (entry : Option Payload) : Bytes := (entry.map Payload.data).getD []

@[simp] theorem Payload.bytes?_none : Payload.bytes? none = [] := rfl

@[simp] theorem Payload.bytes?_some (p : Payload) : Payload.bytes? (some p) = p.data := rfl

@[simp] theorem Payload.isComplete_iff (p : Payload) : p.isComplete ↔ p.data.length = p.total := by
  simp [Payload.isComplete]

namespace Store

/-! ## The map

A store is a map from references to payloads with a maximum beside it. What is found after a payload is
put or removed is said here once, so that no later proof looks at how the map is kept. -/

@[simp] theorem find?_empty (maximum : Nat) (ref : String) : (empty maximum).find? ref = none := rfl

@[simp] theorem maximum_empty (maximum : Nat) : (empty maximum).maximum = maximum := rfl

theorem contains_iff (s : Store) (ref : String) : s.contains ref ↔ ∃ p, s.find? ref = some p := by
  simp [contains, Option.isSome_iff_exists]

/-- What is found after a payload has been put under a reference. -/
theorem find?_put (s : Store) (ref other : String) (payload : Payload) :
    (s.put ref payload).find? other = if other = ref then some payload else s.find? other := by
  unfold put
  by_cases hin : s.contains ref
  · rw [if_pos hin]
    obtain ⟨old, hold⟩ := (s.contains_iff ref).mp hin
    have hold' : Assoc.find? s.payloads ref = some old := hold
    have hreplace := Assoc.find?_replace s.payloads ref other payload
    rw [hold', Option.map_some] at hreplace
    exact hreplace
  · rw [if_neg hin]
    have hnone : Assoc.find? s.payloads ref = none := by
      rw [contains, Bool.not_eq_true, Option.isSome_eq_false_iff, Option.isNone_iff_eq_none] at hin
      exact hin
    exact Assoc.find?_append_singleton s.payloads ref other payload hnone

@[simp] theorem find?_put_self (s : Store) (ref : String) (payload : Payload) :
    (s.put ref payload).find? ref = some payload := by
  rw [find?_put, if_pos rfl]

theorem find?_put_of_ne (s : Store) {ref other : String} (payload : Payload) (h : other ≠ ref) :
    (s.put ref payload).find? other = s.find? other := by
  rw [find?_put, if_neg h]

@[simp] theorem maximum_put (s : Store) (ref : String) (payload : Payload) :
    (s.put ref payload).maximum = s.maximum := by
  unfold put
  split <;> rfl

/-- What is found after a reference has been removed. -/
theorem find?_remove (s : Store) (ref other : String) :
    (s.remove ref).find? other = if other = ref then none else s.find? other :=
  Assoc.find?_filter_ne s.payloads ref other

/-! ## Requests to store

The two stages of checks are brought into one condition, `Accepts`, and what an accepted request leaves
into one payload, `received`. Proofs about histories, transfers and hosts start from these. -/

/-- When a request goes with the entry of its reference: it is not too large, stays within its
total, ends the payload if it says so, agrees with what is there on the total, and leaves no gap. -/
structure Accepts (maximum : Nat) (entry : Option Payload) (r : StoreRequest) : Prop where
  total_le : r.total ≤ maximum
  stop_lt : r.offset + r.data.length < offsetLimit
  stop_le : r.offset + r.data.length ≤ r.total
  last : r.isLast = true → r.offset + r.data.length = r.total
  same_total : ∀ p, entry = some p → p.total = r.total
  no_gap : r.offset ≤ (Payload.bytes? entry).length

/-- The payload that an accepted request leaves. -/
def received (entry : Option Payload) (r : StoreRequest) : Payload :=
  ⟨r.total, patch (Payload.bytes? entry) r.data r.offset⟩

/-- A window passes its own checks exactly when it is not too large, stays within its total and ends
the payload if it says so. -/
theorem checkWindow_eq_ok_iff (s : Store) (r : StoreRequest) (stop : Nat) :
    s.checkWindow r = .ok stop ↔
      (r.total ≤ s.maximum ∧ r.offset + r.data.length < offsetLimit ∧
        r.offset + r.data.length ≤ r.total ∧
        (r.isLast = true → r.offset + r.data.length = r.total)) ∧
      stop = r.offset + r.data.length := by
  unfold checkWindow
  -- the four conditions are checked in this order, and each check that fails is a refusal
  by_cases hmax : s.maximum < r.total
  · rw [if_pos hmax]
    constructor
    · nofun
    · rintro ⟨⟨hle, -⟩, -⟩
      omega
  · rw [if_neg hmax]
    simp only
    by_cases hfit : r.offset + r.data.length < offsetLimit ∧ r.offset + r.data.length ≤ r.total
    · rw [if_neg (not_not.mpr hfit)]
      by_cases hlast : r.isLast = true ∧ r.offset + r.data.length ≠ r.total
      · rw [if_pos hlast]
        constructor
        · nofun
        · rintro ⟨⟨-, -, -, h⟩, -⟩
          exact absurd (h hlast.1) hlast.2
      · rw [if_neg hlast]
        simp only [Except.ok.injEq]
        constructor
        · rintro rfl
          refine ⟨⟨by omega, hfit.1, hfit.2, fun h => ?_⟩, rfl⟩
          by_contra hne
          exact hlast ⟨h, hne⟩
        · rintro ⟨-, rfl⟩
          rfl
    · rw [if_pos hfit]
      constructor
      · nofun
      · rintro ⟨⟨-, hlt, hle, -⟩, -⟩
        exact absurd ⟨hlt, hle⟩ hfit

/-- What is there goes with a request exactly when the totals agree and no gap is left. -/
theorem checkStored_eq_ok_iff (s : Store) (r : StoreRequest) (data : Bytes) :
    s.checkStored r = .ok data ↔
      ((∀ p, s.find? r.ref = some p → p.total = r.total) ∧
        r.offset ≤ (Payload.bytes? (s.find? r.ref)).length) ∧
      data = Payload.bytes? (s.find? r.ref) := by
  -- without an entry only the gap is checked, with one also the total
  unfold checkStored
  cases hfind : s.find? r.ref with
  | none =>
    simp only [Payload.bytes?_none, List.length_nil]
    by_cases hgap : 0 < r.offset
    · rw [if_pos hgap]
      constructor
      · nofun
      · rintro ⟨⟨-, hle⟩, -⟩
        exact absurd hgap (Nat.not_lt.mpr hle)
    · rw [if_neg hgap, Except.ok.injEq]
      constructor
      · rintro rfl
        exact ⟨⟨nofun, Nat.not_lt.mp hgap⟩, rfl⟩
      · rintro ⟨-, rfl⟩
        rfl
  | some p =>
    simp only [Payload.bytes?_some]
    by_cases htotal : p.total = r.total
    · rw [if_neg (not_not_intro htotal)]
      by_cases hgap : p.data.length < r.offset
      · rw [if_pos hgap]
        constructor
        · nofun
        · rintro ⟨⟨-, hle⟩, -⟩
          exact absurd hgap (Nat.not_lt.mpr hle)
      · rw [if_neg hgap, Except.ok.injEq]
        constructor
        · rintro rfl
          refine ⟨⟨fun q hq => ?_, Nat.not_lt.mp hgap⟩, rfl⟩
          cases hq
          exact htotal
        · rintro ⟨-, rfl⟩
          rfl
    · rw [if_pos htotal]
      constructor
      · nofun
      · rintro ⟨⟨hsame, -⟩, -⟩
        exact absurd (hsame p rfl) htotal

/-- **Acceptance.** A request is accepted exactly under the conditions of `Accepts`, and then leaves
the received payload under its reference. -/
theorem store_eq_ok_iff (s s' : Store) (r : StoreRequest) :
    s.store r = .ok s' ↔
      Accepts s.maximum (s.find? r.ref) r ∧ s' = s.put r.ref (received (s.find? r.ref) r) := by
  constructor
  · intro h
    unfold store at h
    cases hw : s.checkWindow r with
    | error why => rw [hw] at h; cases h
    | ok stop =>
      cases hd : s.checkStored r with
      | error why => rw [hw, hd] at h; cases h
      | ok data =>
        rw [hw, hd] at h
        -- both checks have passed, so that all six conditions hold
        obtain ⟨⟨h1, h2, h3, h4⟩, -⟩ := (checkWindow_eq_ok_iff s r stop).mp hw
        obtain ⟨⟨h5, h6⟩, rfl⟩ := (checkStored_eq_ok_iff s r data).mp hd
        cases h
        exact ⟨⟨h1, h2, h3, h4, h5, h6⟩, rfl⟩
  · rintro ⟨h, rfl⟩
    -- conversely the conditions make both checks pass
    have hw := (checkWindow_eq_ok_iff s r _).mpr ⟨⟨h.total_le, h.stop_lt, h.stop_le, h.last⟩, rfl⟩
    have hd := (checkStored_eq_ok_iff s r _).mpr ⟨⟨h.same_total, h.no_gap⟩, rfl⟩
    unfold store
    rw [hw, hd]
    rfl

/-- A store call either is accepted and leaves the received payload, or is refused and changes
nothing. -/
theorem answerStore_cases (s : Store) (r : StoreRequest) :
    (Accepts s.maximum (s.find? r.ref) r ∧
        s.answerStore r = (.ok (), s.put r.ref (received (s.find? r.ref) r))) ∨
      (¬ Accepts s.maximum (s.find? r.ref) r ∧
        ∃ why, s.answerStore r = (.error (.refused why), s)) := by
  unfold answerStore
  cases h : s.store r with
  | ok s' =>
    obtain ⟨haccepts, rfl⟩ := (store_eq_ok_iff s s' r).mp h
    exact .inl ⟨haccepts, rfl⟩
  | error why =>
    refine .inr ⟨fun haccepts => ?_, why, rfl⟩
    rw [(store_eq_ok_iff s _ r).mpr ⟨haccepts, rfl⟩] at h
    cases h

/-- A request that satisfies the condition leaves the received payload. -/
theorem answerStore_of_accepts {s : Store} {r : StoreRequest}
    (h : Accepts s.maximum (s.find? r.ref) r) :
    s.answerStore r = (.ok (), s.put r.ref (received (s.find? r.ref) r)) := by
  rcases s.answerStore_cases r with ⟨-, heq⟩ | ⟨hnot, -⟩
  · exact heq
  · exact absurd h hnot

/-- A store call touches no entry but the one of its reference. -/
theorem find?_answerStore_of_ne (s : Store) (r : StoreRequest) {ref : String} (h : ref ≠ r.ref) :
    (s.answerStore r).2.find? ref = s.find? ref := by
  rcases s.answerStore_cases r with ⟨-, heq⟩ | ⟨-, why, heq⟩
  · rw [heq]
    exact find?_put_of_ne s _ h
  · rw [heq]

@[simp] theorem maximum_answerStore (s : Store) (r : StoreRequest) :
    (s.answerStore r).2.maximum = s.maximum := by
  rcases s.answerStore_cases r with ⟨-, heq⟩ | ⟨-, why, heq⟩
  · rw [heq]
    exact maximum_put ..
  · rw [heq]

/-! ## Patches -/

/-- A patched payload ends where the longer of the old bytes and the new chunk ends. -/
theorem length_patch (data chunk : Bytes) {offset : Nat} (h : offset ≤ data.length) :
    (patch data chunk offset).length = max data.length (offset + chunk.length) := by
  unfold patch
  split
  · simp only [List.length_append, List.length_take, List.length_drop]
    omega
  · simp only [List.length_append, List.length_take]
    omega

/-- A patched payload has the bytes of the chunk where the chunk covers it, and the old bytes
elsewhere. -/
theorem getElem?_patch (data chunk : Bytes) {offset : Nat} (h : offset ≤ data.length) (i : Nat) :
    (patch data chunk offset)[i]? =
      if offset ≤ i ∧ i < offset + chunk.length then chunk[i - offset]? else data[i]? := by
  -- before the chunk, within it and beyond it, in this order
  have htake : (data.take offset).length = offset := by simp [h]
  have hlen : (data.take offset ++ chunk).length = offset + chunk.length := by
    rw [List.length_append, htake]
  unfold patch
  by_cases hlow : i < offset
  · -- before the chunk, both branches keep the old bytes
    rw [if_neg (show ¬(offset ≤ i ∧ i < offset + chunk.length) by omega)]
    split
    · rw [List.append_assoc, List.getElem?_append_left (by omega), List.getElem?_take_of_lt hlow]
    · rw [List.getElem?_append_left (by omega), List.getElem?_take_of_lt hlow]
  · by_cases hmid : i < offset + chunk.length
    · rw [if_pos (show offset ≤ i ∧ i < offset + chunk.length by omega)]
      split
      · rw [List.getElem?_append_left (by omega), List.getElem?_append_right (by omega), htake]
      · rw [List.getElem?_append_right (by omega), htake]
    · -- beyond the chunk there is only something if the chunk lies within the old bytes
      rw [if_neg (show ¬(offset ≤ i ∧ i < offset + chunk.length) by omega)]
      split
      · rw [List.getElem?_append_right (by omega), hlen, List.getElem?_drop]
        congr 1
        omega
      · rw [List.getElem?_eq_none (by omega), List.getElem?_eq_none (by omega)]

end Store

end Stowage.Chunk
