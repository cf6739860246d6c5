import Stowage.Proofs.Chunk.History
import Stowage.Proofs.Chunk.Storing
/-!
# Stowage — what a chunk store accepts

A store call passes five checks, three of the request alone and two against what is stored under its
reference. `Refused` has one case for each check, and says in which order they are made: a request is
refused by the first check that it does not pass. The checks together are exact, and all of them come
before anything is written: `accepted_or_unchanged` says of every state that operations lead to which
requests are accepted and what they write, and that any other request leaves the whole store as it was.
-/

namespace Stowage.Chunk

/-- What a request has to satisfy on its own account. -/
structure InBounds (maximum : Nat) (r : StoreRequest) : Prop where
  total_le : r.total ≤ maximum
  stop_lt : r.stop < offsetLimit
  stop_le : r.stop ≤ r.total
  last : r.isLast = true → r.stop = r.total

/-- `Refused maximum entry r why`: the first check that a request does not pass. -/
inductive Refused (maximum : Nat) (entry : Option Payload) (r : StoreRequest) : Refusal → Prop where
  | aboveMaximum (htotal : maximum < r.total) :
      Refused maximum entry r (.aboveMaximum r.total maximum)
  | beyondTotal (htotal : r.total ≤ maximum) (hstop : offsetLimit ≤ r.stop ∨ r.total < r.stop) :
      Refused maximum entry r (.beyondTotal r.offset r.data.length r.total)
  | finalEndsEarly (htotal : r.total ≤ maximum) (hlimit : r.stop < offsetLimit)
      (hlast : r.isLast = true) (hearly : r.stop < r.total) :
      Refused maximum entry r (.finalEndsEarly r.stop r.total)
  | totalDiffers (hbounds : InBounds maximum r) (p : Payload) (hentry : entry = some p)
      (hdiffers : p.total ≠ r.total) :
      Refused maximum entry r (.totalDiffers r.total p.total r.ref)
  | gap (hbounds : InBounds maximum r) (hsame : ∀ p, entry = some p → p.total = r.total)
      (hgap : (Payload.bytes? entry).length < r.offset) :
      Refused maximum entry r (.gap r.offset (Payload.bytes? entry).length r.ref)

namespace Store

/-! ## The checks one by one

A request is checked in two stages: first against its own numbers, then against what is stored under its
reference. Each stage gets a lemma that says which case of `Refused` its failure is. -/

/-- A window that is refused on its own account is refused whatever is stored. -/
theorem refused_of_checkWindow {s : Store} {r : StoreRequest} {why : Refusal}
    (h : s.checkWindow r = .error why) (entry : Option Payload) :
    Refused s.maximum entry r why := by
  -- the splits follow the three checks in their order, and each knows that those before it were
  -- passed
  unfold checkWindow at h
  split at h
  · next htotal =>
    cases h
    exact .aboveMaximum htotal
  · next htotal =>
    have htotal : r.total ≤ s.maximum := Nat.not_lt.mp htotal
    simp only at h
    split at h
    · next hstop =>
      cases h
      refine .beyondTotal htotal ?_
      show offsetLimit ≤ r.offset + r.data.length ∨ r.total < r.offset + r.data.length
      omega
    · next hstop =>
      split at h
      · next hlast =>
        cases h
        have hfits := not_not.mp hstop
        exact .finalEndsEarly htotal hfits.1 hlast.1 (Nat.lt_of_le_of_ne hfits.2 hlast.2)
      · cases h

/-- A window that passes the checks of the request alone is within bounds. -/
theorem inBounds_of_checkWindow {s : Store} {r : StoreRequest} {stop : Nat}
    (h : s.checkWindow r = .ok stop) : InBounds s.maximum r := by
  obtain ⟨⟨htotal, hlimit, hstop, hlast⟩, -⟩ := (s.checkWindow_eq_ok_iff r stop).mp h
  exact ⟨htotal, hlimit, hstop, hlast⟩

/-- A window that is in bounds is refused for what is stored under its reference. -/
theorem refused_of_checkStored {s : Store} {r : StoreRequest} {why : Refusal}
    (hbounds : InBounds s.maximum r) (h : s.checkStored r = .error why) :
    Refused s.maximum (s.find? r.ref) r why := by
  -- without an entry there is no total to differ from, and the bytes that are there are none
  unfold checkStored at h
  cases hfind : s.find? r.ref with
  | none =>
    rw [hfind] at h
    simp only at h
    split at h
    · next hgap =>
      cases h
      exact .gap hbounds nofun hgap
    · cases h
  | some p =>
    rw [hfind] at h
    simp only at h
    split at h
    · next hdiffers =>
      cases h
      exact .totalDiffers hbounds p rfl hdiffers
    · next hsame =>
      split at h
      · next hgap =>
        cases h
        refine .gap hbounds (fun q hq => ?_) hgap
        cases hq
        exact not_not.mp hsame
      · cases h

/-- **Refusal.** A request that is not carried out was stopped by the first check it does not pass. -/
theorem refused_of_store {s : Store} {r : StoreRequest} {why : Refusal}
    (h : s.store r = .error why) : Refused s.maximum (s.find? r.ref) r why := by
  unfold store at h
  cases hwindow : s.checkWindow r with
  | error refusal =>
    rw [hwindow] at h
    cases h
    exact refused_of_checkWindow hwindow _
  | ok stop =>
    cases hstored : s.checkStored r with
    | error refusal =>
      rw [hwindow, hstored] at h
      cases h
      exact refused_of_checkStored (inBounds_of_checkWindow hwindow) hstored
    | ok data =>
      rw [hwindow, hstored] at h
      cases h

/-- A refused request changes nothing, and is told which check it did not pass. -/
theorem answerStore_error {s : Store} {r : StoreRequest} {why : CallError}
    (h : (s.answerStore r).1 = .error why) :
    (s.answerStore r).2 = s ∧
      ∃ refusal, why = .refused refusal ∧ Refused s.maximum (s.find? r.ref) r refusal := by
  unfold answerStore at h ⊢
  cases hstore : s.store r with
  | ok s' =>
    rw [hstore] at h
    cases h
  | error refusal =>
    rw [hstore] at h
    cases h
    exact ⟨rfl, refusal, rfl, refused_of_store hstore⟩

/-- A request is answered with success exactly if it goes with what is stored. -/
theorem answerStore_ok_iff (s : Store) (r : StoreRequest) :
    (s.answerStore r).1 = .ok () ↔ Accepts s.maximum (s.find? r.ref) r := by
  rcases s.answerStore_cases r with ⟨haccepts, heq⟩ | ⟨hrefused, why, heq⟩
  · exact iff_of_true (by rw [heq]) haccepts
  · refine iff_of_false (fun hok => ?_) hrefused
    rw [heq] at hok
    cases hok

/-! ## All checks together

Nothing has been written when the last check is made, so a refusal leaves no trace. What is accepted is
one condition on the request and on what is stored under its reference. -/

/-- **A request is carried out, or changes nothing.** In every state that operations lead to, a request
is accepted exactly if its total is within the maximum, its end is an offset and within the total, its
end is the total if it says it is the last, the total is that of what is stored under its reference, and
it starts no later than the bytes stored there end. An accepted request writes its window under its
reference and nothing elsewhere. After any other request the store is the same as before, without a
trace of the request, and the answer names the first check that failed. -/
theorem accepted_or_unchanged (maximum : Nat) (ops : List Operation) (r : StoreRequest) :
    let store := (Store.empty maximum).performAll ops
    let entry := store.find? r.ref
    let answer := store.answerStore r
    (answer.1 = .ok () ↔
      r.total ≤ maximum ∧ r.offset + r.data.length < offsetLimit ∧
        r.offset + r.data.length ≤ r.total ∧
        (r.isLast = true → r.offset + r.data.length = r.total) ∧
        (∀ p, entry = some p → p.total = r.total) ∧ r.offset ≤ (Payload.bytes? entry).length) ∧
    (∀ why, answer.1 = .error why → answer.2 = store ∧
      ∃ refusal, why = .refused refusal ∧ Refused maximum entry r refusal) ∧
    (answer.1 = .ok () → SameBut r.ref store answer.2 ∧
      answer.2.find? r.ref =
        some ⟨r.total, patch (Payload.bytes? entry) r.data r.offset⟩) := by
  intro store entry answer
  have hmaximum : store.maximum = maximum := maximum_performAll ops _
  refine ⟨?_, fun why hwhy => ?_, fun hok => ?_⟩
  · rw [answerStore_ok_iff, hmaximum]
    exact ⟨fun ⟨htotal, hlimit, hstop, hlast, hsame, hgap⟩ =>
        ⟨htotal, hlimit, hstop, hlast, hsame, hgap⟩,
      fun ⟨htotal, hlimit, hstop, hlast, hsame, hgap⟩ =>
        ⟨htotal, hlimit, hstop, hlast, hsame, hgap⟩⟩
  -- a refusal comes before anything is written
  · rw [← hmaximum]
    exact answerStore_error hwhy
  · have heq := answerStore_of_accepts ((answerStore_ok_iff store r).mp hok)
    have hafter : answer.2 = store.put r.ref (received entry r) := congrArg Prod.snd heq
    rw [hafter]
    exact ⟨sameBut_put store r.ref _, find?_put_self store r.ref _⟩

end Store

end Stowage.Chunk
