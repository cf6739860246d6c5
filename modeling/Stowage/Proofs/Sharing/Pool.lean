import Mathlib.Logic.Relation
import Stowage.Proofs.Chunk.Fetch
import Stowage.Proofs.Chunk.History
import Stowage.Proofs.Sharing.Operations
/-!
# Stowage — scanners that share a chunk store

Any number of remote scanners work on one chunk store, one call at a time and in any order (`Pool.Step`);
calls may fail or time out, carried out or not. `Pool.Sound` is the invariant: no reference was drawn
twice, and every task keeps what it promises. It is preserved by every step (`Sound.step`), since a
task changes only the payloads under its own references. `offloads_stay` is what follows for a whole
run: nothing is ever removed, and what was offloaded can be fetched from then on.
-/

namespace Stowage

open Chunk

/-! ## Tasks

A pool is a store and the tasks that share it. A step answers the call of one of the tasks, any of them,
so a run is any interleaving of their calls. -/

/-- An operation of a scanner with its own transfer and threshold. -/
inductive Operation where
  | offload (t : Transfer) (threshold : Nat) (message : Bytes)
  | resolve (t : Transfer) (threshold : Nat) (message : Bytes)
  | contains (t : Transfer) (threshold : Nat) (message : Bytes)

/-- What an operation ends with. -/
inductive Outcome where
  | message (result : Except Failure Bytes)
  | flag (found : Bool)

/-- The calls of an operation. -/
def Operation.program : Operation → Program Outcome
  | offload t threshold message =>
    (Message.offload (Remote.backend t threshold) message).bind fun r => .done (.message r)
  | resolve t threshold message =>
    (Message.resolve (Remote.backend t threshold) message).bind fun r => .done (.message r)
  | contains t threshold message =>
    .done (.flag (Message.containsReferences (Remote.backend t threshold) message))

/-- An operation under way: the references it has drawn, and what is left of it. -/
structure Task where
  operation : Operation
  drawn : List String
  rest : Program Outcome

/-- A chunk store and the tasks that share it, the finished ones too. -/
structure Pool where
  store : Store
  tasks : List Task

namespace Pool

/-- The references that any task has drawn. -/
def drawn (p : Pool) : List String := p.tasks.flatMap Task.drawn

/-- One step: a scanner starts an operation, or one call of one task is answered. -/
inductive Step : Pool → Pool → Prop where
  | start (p : Pool) (o : Operation) : Step p ⟨p.store, p.tasks ++ [⟨o, [], o.program⟩]⟩
  | call (p : Pool) (before after : List Task) (task : Task) (c : Call)
      (next : c.Reply → Program Outcome) (reply : c.Reply) (v : View)
      (htasks : p.tasks = before ++ task :: after) (hrest : task.rest = .call c next)
      (hanswer : Answers p.drawn c ⟨task.drawn, p.store⟩ reply v) :
      Step p ⟨v.store, before ++ ⟨task.operation, v.drawn, next reply⟩ :: after⟩

/-- Any number of steps. -/
abbrev Reaches : Pool → Pool → Prop := Relation.ReflTransGen Step

/-! ## Nothing is removed

No task deletes a payload, and what a call may do to an entry only makes it grow. -/

/-- A call leaves every entry in place, and none gets shorter. -/
theorem grows_of_answers {used : List String} {c : Call} {v v' : View} {reply : c.Reply}
    (h : Answers used c v reply v') {ref : String} {entry : Payload}
    (hentry : v.store.find? ref = some entry) :
    ∃ later, v'.store.find? ref = some later ∧ Store.Grows entry later := by
  have hstore : ∀ r : StoreRequest, ∃ later,
      (v.store.answerStore r).2.find? ref = some later ∧ Store.Grows entry later := fun r =>
    @Store.find?_perform_grows v.store (.store r) ref entry hentry (by simp)
  cases h with
  | stored _ r _ _ => exact hstore r
  | unanswered _ r _ _ _ => exact hstore r
  | _ => exact ⟨entry, hentry, .refl entry⟩

/-- Over any run, every entry stays and grows. -/
theorem grows_of_reaches {p p' : Pool} (h : Reaches p p') {ref : String} {entry : Payload}
    (hentry : p.store.find? ref = some entry) :
    ∃ later, p'.store.find? ref = some later ∧ Store.Grows entry later := by
  induction h with
  | refl => exact ⟨entry, hentry, .refl entry⟩
  | tail _ hstep ih =>
    obtain ⟨middle, hmiddle, hgrows⟩ := ih
    cases hstep with
    | start o => exact ⟨middle, hmiddle, hgrows⟩
    | call before after task c next reply v _ _ hanswer =>
      obtain ⟨later, hlater, hgrows'⟩ := grows_of_answers hanswer hmiddle
      exact ⟨later, hlater, hgrows.trans hgrows'⟩

/-! ## The invariant

Every task has drawn references that no other task has. What one task is promised about its own
references the others cannot break. -/

/-- What a finished operation promises: where a message was offloaded, its candidates stand under the
references in the result. -/
def Promises : Operation → Outcome → View → Prop
  | .offload _ threshold message, .message (.ok message'), v =>
    Remote.Offloaded (Gate.mk threshold) message message' v
  | _, _, _ => True

/-- A promise holds as long as nothing changes under the references of the task. -/
theorem promises_stable (o : Operation) (outcome : Outcome) (v : View) (store : Store)
    (hsame : SameOn v.drawn v.store store) (h : Promises o outcome v) :
    Promises o outcome ⟨v.drawn, store⟩ := by
  match o, outcome with
  | .offload _ _ _, .message (.ok _) =>
    obtain ⟨refOf, hmessage, hstands⟩ := h
    exact ⟨refOf, hmessage, fun c hc => (hstands c hc).of_extends ⟨fun _ h => h, hsame⟩⟩
  | .offload _ _ _, .message (.error _) => trivial
  | .offload _ _ _, .flag _ => trivial
  | .resolve _ _ _, _ => trivial
  | .contains _ _ _, _ => trivial

/-- Every operation keeps its promise from the start. -/
theorem keeps_program (o : Operation) (v : View) : Keeps (Promises o) o.program v := by
  cases o with
  | offload t threshold message =>
    refine Keeps.bind ((Remote.keeps_offloadMessage t threshold message v).mono fun r v' h => ?_)
    cases r with
    | error failure => trivial
    | ok message' => exact h message' rfl
  | resolve t threshold message =>
    exact Keeps.bind ((Remote.harmless_resolve t threshold message v).mono fun _ _ _ => trivial)
  | contains t threshold message => trivial

/-- **The invariant.** No reference was drawn twice, and every task keeps its promise. -/
structure Sound (p : Pool) : Prop where
  distinct : p.drawn.Nodup
  keeps : ∀ task ∈ p.tasks, Keeps (Promises task.operation) task.rest ⟨task.drawn, p.store⟩

theorem Sound.empty (store : Store) : Sound ⟨store, []⟩ :=
  ⟨List.nodup_nil, fun _ h => absurd h List.not_mem_nil⟩

theorem drawn_append (store : Store) (before after : List Task) (task : Task) :
    drawn ⟨store, before ++ task :: after⟩ =
      before.flatMap Task.drawn ++ (task.drawn ++ after.flatMap Task.drawn) := by
  rw [drawn, List.flatMap_append, List.flatMap_cons]

/-- Where all references are distinct, other tasks have others. -/
theorem disjoint_of_nodup {store : Store} {before after : List Task} {task other : Task}
    (h : (drawn ⟨store, before ++ task :: after⟩).Nodup) (hother : other ∈ before ++ after) :
    ∀ ref ∈ other.drawn, ref ∉ task.drawn := by
  intro ref href htask
  rw [drawn_append, List.nodup_append, List.nodup_append] at h
  obtain ⟨-, ⟨-, -, hafter⟩, hbefore⟩ := h
  rcases List.mem_append.mp hother with hin | hin
  · exact hbefore ref (List.mem_flatMap.mpr ⟨other, hin, href⟩) ref
      (List.mem_append_left _ htask) rfl
  · exact hafter ref htask ref (List.mem_flatMap.mpr ⟨other, hin, href⟩) rfl

/-- The task whose call is answered changes nothing but what it has drawn, and goes on as it promised. -/
theorem Sound.call {p : Pool} (h : Sound p) {before after : List Task} {task : Task} {c : Call}
    {next : c.Reply → Program Outcome} {reply : c.Reply} {v : View}
    (htasks : p.tasks = before ++ task :: after) (hrest : task.rest = .call c next)
    (hanswer : Answers p.drawn c ⟨task.drawn, p.store⟩ reply v) :
    OnlyUnder task.drawn p.store v.store ∧ Keeps (Promises task.operation) (next reply) v := by
  have htask : task ∈ p.tasks := by
    rw [htasks]
    simp
  have hkeeps := h.keeps task htask
  rw [hrest] at hkeeps
  exact hkeeps p.store (.refl _ _) reply v
    (hanswer.mono fun _ href => List.mem_flatMap.mpr ⟨task, htask, href⟩)

/-- **One step** preserves the invariant: the task whose call is answered goes on as it promised, and the
others see no change under their references. -/
theorem Sound.step {p p' : Pool} (h : Sound p) (hstep : Step p p') : Sound p' := by
  cases hstep with
  | start o =>
    refine ⟨?_, fun task htask => ?_⟩
    · have hdrawn : drawn ⟨p.store, p.tasks ++ [⟨o, [], o.program⟩]⟩ = p.drawn := by
        simp [drawn]
      rw [hdrawn]
      exact h.distinct
    · rcases List.mem_append.mp htask with hold | hnew
      · exact h.keeps task hold
      · rw [List.mem_singleton] at hnew
        subst hnew
        exact keeps_program o _
  | call before after task c next reply v htasks hrest hanswer =>
    obtain ⟨store, tasks⟩ := p
    change tasks = _ at htasks
    subst htasks
    -- what the call may change lies under the references of its own task
    obtain ⟨honly, hnext⟩ := h.call rfl hrest hanswer
    refine ⟨?_, fun other hother => ?_⟩
    · have hdistinct := h.distinct
      rw [drawn_append] at hdistinct ⊢
      -- a call draws at most one reference, and one that nobody has
      rcases hanswer.drawn with heq | ⟨ref, hnew, heq⟩
      · rw [heq]
        exact hdistinct
      · rw [drawn_append] at hnew
        rw [heq, List.cons_append, List.nodup_middle, List.nodup_cons]
        exact ⟨hnew, hdistinct⟩
    · have hcases : other ∈ before ++ after ∨ other = ⟨task.operation, v.drawn, next reply⟩ := by
        simp only [List.mem_append, List.mem_cons] at hother ⊢
        tauto
      rcases hcases with hold | rfl
      · have hsame : SameOn other.drawn store v.store := fun ref href =>
          honly ref (disjoint_of_nodup h.distinct hold ref href)
        have hother' : other ∈ before ++ task :: after := by
          simp only [List.mem_append, List.mem_cons] at hold ⊢
          tauto
        exact (h.keeps other hother').stable (promises_stable other.operation) hsame
      · exact hnext

/-- **Any run** preserves the invariant. -/
theorem Sound.reaches {p p' : Pool} (h : Sound p) (hreach : Reaches p p') : Sound p' := by
  induction hreach with
  | refl => exact h
  | tail _ hstep ih => exact ih.step hstep

/-- A finished task stays, and nothing changes under its references. -/
theorem Sound.finished {p p' : Pool} (h : Sound p) {task : Task} {outcome : Outcome}
    (htask : task ∈ p.tasks) (hrest : task.rest = .done outcome) (hreach : Reaches p p') :
    task ∈ p'.tasks ∧ SameOn task.drawn p.store p'.store := by
  induction hreach with
  | refl => exact ⟨htask, .refl _ _⟩
  | @tail middle last hmiddle hstep ih =>
    obtain ⟨hin, hsame⟩ := ih
    have hsound := h.reaches hmiddle
    cases hstep with
    | start o => exact ⟨List.mem_append_left _ hin, hsame⟩
    | call before after other c next reply v htasks hother hanswer =>
      obtain ⟨store, tasks⟩ := middle
      change tasks = _ at htasks
      subst htasks
      obtain ⟨honly, -⟩ := hsound.call rfl hother hanswer
      -- a finished task makes no more calls, so the call was another's
      have hne : task ≠ other := by
        rintro rfl
        rw [hrest] at hother
        cases hother
      have hold : task ∈ before ++ after := by
        simp only [List.mem_append, List.mem_cons] at hin ⊢
        tauto
      refine ⟨?_, hsame.trans fun ref href =>
        honly ref (disjoint_of_nodup hsound.distinct hold ref href)⟩
      simp only [List.mem_append, List.mem_cons] at hold ⊢
      tauto

/-! ## Fetching later

A marker is followed when the task that wrote it may be long gone. All stores from then on hold its
payload, so it does not matter when each window is asked for. -/

/-- A world in which one call for a window after the other is answered by one store after the other. -/
def servedBy (delay : Nat) (stores : Nat → Store) : Answering Nat
  | .get r patience, i =>
    if patience < delay then (none, i) else (some (delay, (stores i).get r), i + 1)
  | .draw, i => ([], i)
  | .store _ _, i => (none, i)
  | .send _ _ _, i => (none, i)
  | .input, i => ([], i)
  | .read _, i => (none, i)
  | .change _, i => (none, i)
  | .listen _ _, i => ("", i)

/-- A payload that all of the stores hold is served. -/
theorem serves_servedBy {delay : Nat} {stores : Nat → Store} {ref : String} {data : Bytes}
    (h : ∀ i, (stores i).find? ref = some ⟨data.length, data⟩) :
    Serves (servedBy delay stores) ref data delay fun _ => True := by
  intro i _ offset length patience hoffset hpatience
  refine ⟨i + 1, ?_, trivial⟩
  rw [servedBy, if_neg (by omega), Store.get_of_find? (h i) (Nat.le_of_lt hoffset)]
  rfl

/-- **Sharing a store is safe.** In every run from a store without tasks, nothing is ever removed from
the store. A finished offload that succeeded put markers in place of the candidates of its message;
fetching what a marker stands for gives exactly the bytes of its candidate, with any transfer that
has the time, however the calls of the fetch are spread over whatever happens later. -/
theorem offloads_stay {start : Store} {p : Pool} (hreach : Reaches ⟨start, []⟩ p) :
    (∀ later, Reaches p later → ∀ ref entry, p.store.find? ref = some entry →
      ∃ entry', later.store.find? ref = some entry' ∧ Store.Grows entry entry') ∧
    ∀ task ∈ p.tasks, ∀ t threshold message message',
      task.operation = .offload t threshold message →
      task.rest = .done (.message (.ok message')) →
      ∃ refOf : String → String,
        message' = (Gate.mk threshold).rewritten
          (fun c => (Marker.make (refOf c.fieldPath) c.bytes.length c.fieldPath).toJson) message ∧
        ∀ c ∈ (Gate.mk threshold).candidates message,
          ∀ later : Nat → Pool, (∀ i, Reaches p (later i)) →
          ∀ (t' : Transfer) (delay : Nat),
            t'.calls c.bytes.length * delay ≤ t'.deadline.nanoseconds →
            ((t'.fetch (refOf c.fieldPath) c.bytes.length).run
              (servedBy delay fun i => (later i).store) 0).1 = .ok c.bytes := by
  refine ⟨fun later hlater ref entry hentry => grows_of_reaches hlater hentry, ?_⟩
  intro task htask t threshold message message' hoperation hrest
  have hsound : Sound p := (Sound.empty start).reaches hreach
  have hpromise := hsound.keeps task htask
  rw [hoperation, hrest] at hpromise
  obtain ⟨refOf, hmessage, hstands⟩ := hpromise
  refine ⟨refOf, hmessage, fun c hc later hlater t' delay htime => ?_⟩
  obtain ⟨hdrawn, hstored⟩ := hstands c hc
  -- what the task has drawn is left alone by everything that happens later
  have hkept : ∀ i, (later i).store.find? (refOf c.fieldPath) =
      some ⟨c.bytes.length, c.bytes⟩ := fun i =>
    ((hsound.finished htask hrest (hlater i)).2 _ hdrawn).trans hstored
  obtain ⟨i, hfetch, -⟩ := t'.run_fetch (serves_servedBy hkept) htime (s := 0) trivial
  rw [hfetch]

/-- A message of one byte is offloaded by the only task, and fetched ever after. -/
theorem offloads_stay_single :
    ∃ (p : Pool) (task : Task) (message' : Bytes),
      Reaches ⟨.empty 8, []⟩ p ∧ task ∈ p.tasks ∧
      task.operation = .offload (.make 1 ⟨10⟩) 0 [120] ∧
      task.rest = .done (.message (.ok message')) ∧
      ∃ refOf : String → String,
        message' = (Gate.mk 0).rewritten
          (fun c => (Marker.make (refOf c.fieldPath) c.bytes.length c.fieldPath).toJson) [120] ∧
        ∀ c ∈ (Gate.mk 0).candidates [120],
          ∀ later : Nat → Pool, (∀ i, Reaches p (later i)) →
          ∀ (t' : Transfer) (delay : Nat),
            t'.calls c.bytes.length * delay ≤ t'.deadline.nanoseconds →
            ((t'.fetch (refOf c.fieldPath) c.bytes.length).run
              (servedBy delay fun i => (later i).store) 0).1 = .ok c.bytes := by
  have hread : Json.read? [120] = none := rfl
  have hcandidates : (Gate.mk 0).candidates [120] = [⟨"", [120], none⟩] := by
    rw [Gate.candidates_other _ (by simp [hread]), hread]
    rfl
  set o : Operation := .offload (.make 1 ⟨10⟩) 0 [120] with ho
  set r : StoreRequest := ⟨Uuid.refOf [], [120], 0, 1, true⟩
  -- the program is a draw, one store call of the only window, and the end
  obtain ⟨next, hprogram, next', hnext, message', hnext'⟩ :
      ∃ next, o.program = .call .draw next ∧ ∃ next', next [] = .call (.store r 10) next' ∧
        ∃ message', next' (some (0, .ok ())) = .done (.message (.ok message')) := by
    rw [ho, Operation.program, Message.offload_eq]
    show ∃ next, Program.bind (Program.bind (Message.offloadAll _ ((Gate.mk 0).candidates [120])) _)
      _ = .call .draw next ∧ _
    rw [hcandidates]
    exact ⟨_, rfl, _, rfl, _, rfl⟩
  have hanswer : (Store.empty 8).answerStore r =
      (.ok (), (Store.empty 8).put r.ref (Store.received none r)) :=
    Store.answerStore_of_accepts (by constructor <;> simp [r, offsetLimit])
  set ref := Uuid.refOf []
  set store := (Store.empty 8).put r.ref (Store.received none r)
  -- the draw takes the empty reference, and the store call is accepted
  have hdraw : Step ⟨.empty 8, [⟨o, [], o.program⟩]⟩ ⟨.empty 8, [⟨o, [ref], next []⟩]⟩ :=
    .call _ [] [] ⟨o, [], o.program⟩ .draw next [] ⟨[ref], .empty 8⟩ rfl hprogram
      (.draw ⟨[], .empty 8⟩ [] (by simp [drawn]) rfl)
  have hstored : Answers [ref] (.store r 10) ⟨[ref], .empty 8⟩ (some (0, .ok ())) ⟨[ref], store⟩ := by
    have hserved := @Answers.stored [ref] ⟨[ref], .empty 8⟩ r 10 0
    rw [hanswer] at hserved
    exact hserved
  have hstore : Step ⟨.empty 8, [⟨o, [ref], next []⟩]⟩ ⟨store, [⟨o, [ref], next' (some (0, .ok ()))⟩]⟩ :=
    .call _ [] [] ⟨o, [ref], next []⟩ (.store r 10) next' (some (0, .ok ())) ⟨[ref], store⟩ rfl hnext
      (by simpa [drawn] using hstored)
  have hreach : Reaches ⟨.empty 8, []⟩ ⟨store, [⟨o, [ref], next' (some (0, .ok ()))⟩]⟩ :=
    ((Relation.ReflTransGen.single (.start _ o)).tail hdraw).tail hstore
  have htask := List.mem_singleton.mpr (rfl : (⟨o, [ref], next' (some (0, .ok ()))⟩ : Task) = _)
  exact ⟨_, _, message', hreach, htask, rfl, hnext',
    (offloads_stay hreach).2 _ htask _ _ _ message' rfl hnext'⟩

end Pool

end Stowage
