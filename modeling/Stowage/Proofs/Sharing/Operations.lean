import Stowage.Proofs.Backend.Marker
import Stowage.Proofs.Chunk.Windows
import Stowage.Proofs.Sharing.View
/-!
# Stowage — operations on a shared store

What the operations of a remote scanner keep while others work on the same store. Storing writes
under a reference that was drawn for it, and if it succeeds all of the payload is there
(`keeps_store`); fetching and resolving change nothing at all. `keeps_offload` says this of a whole
message: where offloading succeeds, every reference in the message stands for its candidate.
-/

namespace Stowage

open Chunk

namespace Remote

/-- What `Keeps` says of a program that may end anyhow: it changes only what it has drawn. -/
abbrev Harmless {α : Type} (p : Program α) (v : View) : Prop := Keeps (fun _ _ => True) p v

/-! ## Storing

Each window of a payload is stored under a reference that the task itself has drawn. Between two of its
calls other tasks may run, but not under that reference. -/

/-- Storing what is left of a payload: the references drawn stay the same, nothing changes under the others
of them, and if all windows were taken, all of the payload has arrived. Induction on the windows. -/
theorem keeps_storeAll (t : Transfer) {size offset : Nat} {rest : Bytes}
    {windows : List (Nat × Bytes)} (h : Transfer.Tiles size offset rest windows) {ref : String}
    {total : Nat} :
    ∀ (stored : Bytes) (patience : Nat) (v : View), ref ∈ v.drawn →
      Holds (v.store.find? ref) total stored → offset = stored.length →
      Keeps (fun r v' => v'.drawn = v.drawn ∧
          (∀ other ∈ v.drawn, other ≠ ref → v'.store.find? other = v.store.find? other) ∧
          (r = .ok () → Holds (v'.store.find? ref) total (stored ++ rest)))
        (t.storeAll (windows.map (Transfer.request ref total)) patience) v := by
  induction h with
  | nil offset =>
    intro stored patience v _ hholds _
    refine ⟨rfl, fun _ _ _ => rfl, fun _ => ?_⟩
    rw [List.append_nil]
    exact hholds
  | cons offset chunk rest windows _ _ _ _ ih =>
    intro stored patience v href hholds hoffset
    subst hoffset
    refine Keeps.store href (fun store spent hsame => ?_) fun reply store hfailed hkept => ?_
    -- the window was taken: the prefix is longer by it
    · have hholds' : Holds (store.find? ref) total stored := by
        rw [hsame ref href]
        exact hholds
      show Keeps _ (t.storeAll (windows.map (Transfer.request ref total)) (patience - spent))
        ⟨v.drawn, store.put ref (Store.received (store.find? ref)
          (Transfer.request ref total (stored.length, chunk)))⟩
      rw [received_next chunk ref hholds']
      refine (ih (stored ++ chunk) (patience - spent)
        ⟨v.drawn, store.put ref ⟨total, stored ++ chunk⟩⟩ href (.inr (Store.find?_put_self ..))
        (by rw [List.length_append])).mono fun r w ⟨hdrawn, hkept, hholds⟩ => ?_
      refine ⟨hdrawn, fun other hother hne => ?_, fun hok => ?_⟩
      · exact (hkept other hother hne).trans
          ((Store.find?_put_of_ne store _ hne).trans (hsame other hother))
      · rw [← List.append_assoc]
        exact hholds hok
    -- it was not: the transfer stops here
    · match reply, hfailed with
      | none, _ => exact ⟨rfl, hkept, fun h => by cases h⟩
      | some (_, .error why), _ => exact ⟨rfl, hkept, fun h => by cases h⟩

/-- A candidate stands under a reference that was drawn for it. -/
def StandsUnder (c : Candidate) (ref : String) (v : View) : Prop :=
  ref ∈ v.drawn ∧ v.store.find? ref = some ⟨c.bytes.length, c.bytes⟩

/-- What was drawn stays drawn, and what was stored under it stays as it is. -/
structure Extends (v v' : View) : Prop where
  drawn : v.drawn ⊆ v'.drawn
  same : SameOn v.drawn v.store v'.store

theorem Extends.trans {v v' v'' : View} (h : Extends v v') (h' : Extends v' v'') :
    Extends v v'' :=
  ⟨fun _ href => h'.drawn (h.drawn href), h.same.trans (h'.same.subset h.drawn)⟩

theorem StandsUnder.of_extends {c : Candidate} {ref : String} {v v' : View}
    (h : StandsUnder c ref v) (hextends : Extends v v') : StandsUnder c ref v' :=
  ⟨hextends.drawn h.1, (hextends.same ref h.1).trans h.2⟩

/-- **One candidate.** If it is offloaded, a marker stands for it whose reference was drawn for it and
holds all of its bytes. -/
theorem keeps_offload (t : Transfer) {c : Candidate} (hne : c.bytes ≠ []) (v : View) :
    Keeps (fun r v' => Extends v v' ∧
        ∀ reply, r = .ok reply → ∃ ref, reply = some (markerOf c ref) ∧ StandsUnder c ref v')
      (offload t c) v := by
  intro store hsame reply v' hanswer
  cases hanswer with
  | draw _ _ hused hstore =>
    set ref := Uuid.refOf reply
    -- drawing changes nothing; from here on the new reference is one of its own
    refine ⟨fun _ _ => rfl, ?_⟩
    show Keeps _ (Program.bind (t.store ref c.bytes) _) ⟨ref :: v.drawn, store⟩
    refine Keeps.bind ?_
    have hstored := keeps_storeAll t (Transfer.tiles_windows t.one_le_chunkSize c.bytes) []
      t.deadline.nanoseconds ⟨ref :: v.drawn, store⟩ (List.mem_cons_self ..)
      (.inl ⟨rfl, hstore⟩ : Holds (store.find? ref) c.bytes.length []) rfl
    refine hstored.mono fun r w ⟨hdrawn, hkept, hholds⟩ => ?_
    have hextends : Extends v w := by
      refine ⟨fun other hother => ?_, fun other hother => ?_⟩
      · rw [hdrawn]
        exact List.mem_cons_of_mem _ hother
      · rw [hkept other (List.mem_cons_of_mem _ hother) fun heq => hused (heq ▸ hother)]
        exact hsame other hother
    cases r with
    | error failure => exact ⟨hextends, fun reply h => by cases h⟩
    | ok stored =>
      refine ⟨hextends, fun reply h => ?_⟩
      cases h
      refine ⟨ref, rfl, ?_, (hholds rfl).eq_some hne⟩
      rw [hdrawn]
      exact List.mem_cons_self ..

/-- All candidates: what was stored for the first of them is still there when the last is done. -/
theorem keeps_offloadAll (t : Transfer) (threshold : Nat) (candidates : List Candidate)
    (hne : ∀ c ∈ candidates, c.bytes ≠ []) (v : View) :
    Keeps (fun r v' => Extends v v' ∧ ∀ replies, r = .ok replies →
        List.Forall₂ (fun c reply => ∃ ref, reply = some (markerOf c ref) ∧ StandsUnder c ref v')
          candidates replies)
      (Message.offloadAll (backend t threshold) candidates) v := by
  induction candidates generalizing v with
  | nil =>
    refine ⟨⟨fun _ h => h, .refl _ _⟩, fun replies h => ?_⟩
    cases h
    exact .nil
  | cons c rest ih =>
    refine Keeps.bind ?_
    refine (keeps_offload t (hne c (List.mem_cons_self ..)) v).mono fun r v₁ ⟨hextends, hc⟩ => ?_
    cases r with
    | error failure => exact ⟨hextends, fun replies h => by cases h⟩
    | ok reply =>
      obtain ⟨ref, hreply, hstands⟩ := hc reply rfl
      refine Keeps.bind ?_
      refine (ih (fun d hd => hne d (List.mem_cons_of_mem _ hd)) v₁).mono
        fun r v₂ ⟨hextends', hrest⟩ => ?_
      refine ⟨hextends.trans hextends', fun replies h => ?_⟩
      -- what the first candidate left behind is extended by the others, so it still stands
      cases r with
      | error failure => cases h
      | ok replies' =>
        cases h
        exact .cons ⟨ref, hreply, hstands.of_extends hextends'⟩ (hrest replies' rfl)

/-- `Offloaded gate message message' v`: the message became one in which markers stand for the candidates,
and each candidate stands under the reference of its marker. -/
def Offloaded (gate : Gate) (message message' : Bytes) (v : View) : Prop :=
  ∃ refOf : String → String,
    message' = gate.rewritten (fun c => markerOf c (refOf c.fieldPath)) message ∧
      ∀ c ∈ gate.candidates message, StandsUnder c (refOf c.fieldPath) v

/-- **A message.** Where offloading succeeds, all candidates stand under the references in the result. -/
theorem keeps_offloadMessage (t : Transfer) (threshold : Nat) (message : Bytes) (v : View) :
    Keeps (fun r v' => ∀ message', r = .ok message' →
        Offloaded (Gate.mk threshold) message message' v')
      (Message.offload (backend t threshold) message) v := by
  have hne : ∀ c ∈ (Gate.mk threshold).candidates message, c.bytes ≠ [] :=
    fun c hc => Gate.bytes_ne_nil_of_mem_candidates hc
  rw [Message.offload_eq]
  refine Keeps.bind ((keeps_offloadAll t threshold _ hne v).mono fun r v' ⟨_, hall⟩ => ?_)
  intro message' h
  cases r with
  | error failure => cases h
  | ok replies =>
    cases h
    obtain ⟨refOf, hreplies, hstands⟩ := Message.exists_by_key Candidate.fieldPath
      (f := fun c ref => some (markerOf c ref)) (P := fun c ref => StandsUnder c ref v')
      (hall replies rfl) ((Gate.mk threshold).nodup_candidates message)
    refine ⟨refOf, ?_, hstands⟩
    rw [hreplies]
    exact Message.assemble_some (Gate.mk threshold) _ message

/-! ## Fetching and resolving

These draw no references and store nothing, so no promise is needed to run them. -/

theorem harmless_fetchFrom (t : Transfer) (ref : String) (total fuel : Nat) :
    ∀ (received : Bytes) (patience : Nat) (v : View),
      Harmless (t.fetchFrom ref total fuel received patience) v := by
  induction fuel with
  | zero => exact fun _ _ _ => trivial
  | succ fuel ih =>
    intro received patience v
    rw [Transfer.fetchFrom]
    -- fetching only reads, whatever the reply
    split
    · refine Keeps.get fun reply store => ?_
      match reply with
      | none => trivial
      | some (_, .error why) => trivial
      | some (spent, .ok window) =>
        simp only
        split
        · trivial
        · trivial
        · exact ih ..
    · trivial

/-- Resolving fields changes nothing, whatever they refer to. -/
theorem harmless_resolveFields (t : Transfer) (threshold : Nat) (fields : Json.Members) :
    ∀ v, Harmless (Message.resolveFields (backend t threshold) fields) v := by
  induction fields with
  | nil => exact fun _ => trivial
  | cons field rest ih =>
    intro v
    -- the rest of the fields, with whatever comes after it
    have hrest : ∀ {β : Type} (f : Except Failure (Json.Members × Bool) → Program β) (v : View),
        (∀ r v, Harmless (f r) v) →
          Harmless ((Message.resolveFields (backend t threshold) rest).bind f) v :=
      fun f v hf => Keeps.bind ((ih v).mono fun r v' _ => hf r v')
    obtain ⟨key, value⟩ := field
    rw [Message.resolveFields]
    split
    · trivial
    · refine hrest _ v fun r v => ?_
      cases r <;> trivial
    · next r _ =>
      refine Keeps.bind ((harmless_fetchFrom t r.id r.totalSize _ _ _ v).mono fun result v' _ => ?_)
      cases result with
      | error failure => trivial
      | ok bytes =>
        refine hrest _ v' fun r v => ?_
        cases r <;> trivial

theorem harmless_resolve (t : Transfer) (threshold : Nat) (message : Bytes) (v : View) :
    Harmless (Message.resolve (backend t threshold) message) v := by
  unfold Message.resolve
  split
  · trivial
  · next value _ =>
    split
    · trivial
    · next r _ =>
      split
      · exact harmless_fetchFrom ..
      · trivial
    · split
      · next fields _ _ =>
        refine Keeps.bind ((harmless_resolveFields t threshold fields v).mono fun r v' _ => ?_)
        match r with
        | .error failure => trivial
        | .ok (fields, true) => trivial
        | .ok (_, false) => trivial
      · trivial

end Remote

end Stowage
