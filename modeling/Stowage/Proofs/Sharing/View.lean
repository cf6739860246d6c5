import Stowage.Ident.Uuid
import Stowage.Proofs.Chunk.Entry
import Stowage.Proofs.Program
/-!
# Stowage — a program among others

Several programs share one chunk store. Each sees the store and the references it has drawn itself
(`View`); `Answers` says how one of its calls can be answered, faults included. Between two calls
the others may do anything to the store except to the references that the program has drawn.
`Keeps Q program view` says that the program, run like that, changes nothing but the payloads under its
own references and can only end where `Q` holds. `Keeps.bind` composes it, `Keeps.stable` lets
others run.
-/

namespace Stowage

open Chunk

/-- The reference that random bytes are made into. -/
def Uuid.refOf (draw : Bytes) : String := (ofRandom draw).text

/-- What a program sees of a shared store: the references it has drawn, and the store. -/
structure View where
  drawn : List String
  store : Store

/-- A reply without success: none in time, or an error. -/
def Failed {α : Type} : Timed (Except CallError α) → Prop
  | some (_, .ok _) => False
  | _ => True

/-- How a call on a shared store is answered. A draw gives a reference that is not in `used` and not in
the store. A store call is carried out and answered, or answered without success, whether it was
carried out or not. A call for a window is answered by the store or without success. -/
inductive Answers (used : List String) : (c : Call) → View → c.Reply → View → Prop where
  | draw (v : View) (bytes : Bytes) (hused : Uuid.refOf bytes ∉ used)
      (hstore : v.store.find? (Uuid.refOf bytes) = none) :
      Answers used .draw v bytes ⟨Uuid.refOf bytes :: v.drawn, v.store⟩
  | stored (v : View) (r : StoreRequest) (patience spent : Nat) :
      Answers used (.store r patience) v (some (spent, (v.store.answerStore r).1))
        ⟨v.drawn, (v.store.answerStore r).2⟩
  | unanswered (v : View) (r : StoreRequest) (patience : Nat)
      (reply : Timed (Except CallError Unit)) (hfailed : Failed reply) :
      Answers used (.store r patience) v reply ⟨v.drawn, (v.store.answerStore r).2⟩
  | lost (v : View) (r : StoreRequest) (patience : Nat)
      (reply : Timed (Except CallError Unit)) (hfailed : Failed reply) :
      Answers used (.store r patience) v reply v
  | got (v : View) (r : GetRequest) (patience spent : Nat) :
      Answers used (.get r patience) v (some (spent, v.store.get r)) v
  | withheld (v : View) (r : GetRequest) (patience : Nat)
      (reply : Timed (Except CallError Window)) (hfailed : Failed reply) :
      Answers used (.get r patience) v reply v

/-- A reference that is in no larger list of used ones is in no smaller one. -/
theorem Answers.mono {used fewer : List String} {c : Call} {v v' : View} {reply : c.Reply}
    (h : Answers used c v reply v') (hfewer : fewer ⊆ used) : Answers fewer c v reply v' := by
  cases h with
  | draw _ bytes hused hstore => exact .draw v bytes (fun hin => hused (hfewer hin)) hstore
  | stored _ r patience spent => exact .stored v r patience spent
  | unanswered _ r patience _ hfailed => exact .unanswered v r patience _ hfailed
  | lost _ r patience _ hfailed => exact .lost _ r patience _ hfailed
  | got _ r patience spent => exact .got _ r patience spent
  | withheld _ r patience _ hfailed => exact .withheld _ r patience _ hfailed

/-- The references drawn after a call: those before it, or one more that was not used. -/
theorem Answers.drawn {used : List String} {c : Call} {v v' : View} {reply : c.Reply}
    (h : Answers used c v reply v') :
    v'.drawn = v.drawn ∨ ∃ ref, ref ∉ used ∧ v'.drawn = ref :: v.drawn := by
  cases h with
  | draw _ bytes hused _ => exact .inr ⟨Uuid.refOf bytes, hused, rfl⟩
  | _ => exact .inl rfl

/-- `SameOn refs s s'`: the stores hold the same under the references. -/
def SameOn (refs : List String) (s s' : Store) : Prop :=
  ∀ ref ∈ refs, s'.find? ref = s.find? ref

theorem SameOn.refl (refs : List String) (s : Store) : SameOn refs s s := fun _ _ => rfl

theorem SameOn.trans {refs : List String} {s s' s'' : Store} (h : SameOn refs s s')
    (h' : SameOn refs s' s'') : SameOn refs s s'' :=
  fun ref href => (h' ref href).trans (h ref href)

theorem SameOn.subset {refs fewer : List String} {s s' : Store} (h : SameOn refs s s')
    (hfewer : fewer ⊆ refs) : SameOn fewer s s' := fun ref href => h ref (hfewer href)

/-- Only the payloads under some references differ. -/
def OnlyUnder (refs : List String) (s s' : Store) : Prop :=
  ∀ ref, ref ∉ refs → s'.find? ref = s.find? ref

variable {α β : Type}

/-- `Keeps Q program view`: whatever others do meanwhile to other references, the program changes only what
it has drawn itself, and where it ends `Q` holds. -/
def Keeps (Q : α → View → Prop) : Program α → View → Prop
  | .done a, v => Q a v
  | .call c next, v =>
    ∀ store, SameOn v.drawn v.store store → ∀ (reply : c.Reply) (v' : View),
      Answers v.drawn c ⟨v.drawn, store⟩ reply v' →
        OnlyUnder v.drawn store v'.store ∧ Keeps Q (next reply) v'

namespace Keeps

variable {Q R : α → View → Prop}

theorem mono (himp : ∀ a v, Q a v → R a v) {p : Program α} {v : View} (h : Keeps Q p v) :
    Keeps R p v := by
  induction p generalizing v with
  | done a => exact himp a v h
  | call c next ih =>
    intro store hsame reply v' hanswer
    obtain ⟨honly, hnext⟩ := h store hsame reply v' hanswer
    exact ⟨honly, ih reply hnext⟩

/-- A program that goes on from where another ends. -/
theorem bind {f : α → Program β} {R : β → View → Prop} {p : Program α} {v : View}
    (h : Keeps (fun a v => Keeps R (f a) v) p v) : Keeps R (p.bind f) v := by
  induction p generalizing v with
  | done a => exact h
  | call c next ih =>
    intro store hsame reply v' hanswer
    obtain ⟨honly, hnext⟩ := h store hsame reply v' hanswer
    exact ⟨honly, ih reply hnext⟩

/-- Others may run before a program, if they may run after it. -/
theorem stable (hQ : ∀ a v store, SameOn v.drawn v.store store → Q a v → Q a ⟨v.drawn, store⟩)
    {p : Program α} {v : View} {store : Store} (hsame : SameOn v.drawn v.store store)
    (h : Keeps Q p v) : Keeps Q p ⟨v.drawn, store⟩ := by
  cases p with
  | done a => exact hQ a v store hsame h
  | call c next => exact fun store' hsame' => h store' (hsame.trans hsame')

/-- A call for a window changes nothing, so that it is enough to look at what follows it. -/
theorem get {r : GetRequest} {patience : Nat} {next : (Call.get r patience).Reply → Program α}
    {v : View} (h : ∀ reply store, Keeps Q (next reply) ⟨v.drawn, store⟩) :
    Keeps Q (.call (.get r patience) next) v := by
  intro store _ reply v' hanswer
  cases hanswer with
  | got _ _ _ spent => exact ⟨fun _ _ => rfl, h _ store⟩
  | withheld _ _ _ _ hfailed => exact ⟨fun _ _ => rfl, h _ store⟩

/-- A store call under a reference that was drawn changes nothing else. Where it succeeds the store has
accepted it; where it does not, nothing is known of the payload under the reference. -/
theorem store {r : StoreRequest} {patience : Nat} {next : (Call.store r patience).Reply → Program α}
    {v : View} (href : r.ref ∈ v.drawn)
    (hok : ∀ store spent, SameOn v.drawn v.store store →
      Keeps Q (next (some (spent, .ok ())))
        ⟨v.drawn, store.put r.ref (Store.received (store.find? r.ref) r)⟩)
    (hfailed : ∀ reply store, Failed reply →
      (∀ other ∈ v.drawn, other ≠ r.ref → store.find? other = v.store.find? other) →
        Keeps Q (next reply) ⟨v.drawn, store⟩) :
    Keeps Q (.call (.store r patience) next) v := by
  intro store hsame reply v' hanswer
  -- whether the reply is lost or not, only the entry of the request can change
  have honly : OnlyUnder v.drawn store (store.answerStore r).2 := fun other hother =>
    store.find?_answerStore_of_ne r fun heq => hother (heq ▸ href)
  have hkept : ∀ other ∈ v.drawn, other ≠ r.ref →
      (store.answerStore r).2.find? other = v.store.find? other := fun other hother hne =>
    (store.find?_answerStore_of_ne r hne).trans (hsame other hother)
  cases hanswer with
  | stored _ _ _ spent =>
    refine ⟨honly, ?_⟩
    rcases store.answerStore_cases r with ⟨-, heq⟩ | ⟨-, why, heq⟩
    · rw [heq]
      exact hok store spent hsame
    · rw [heq] at hkept ⊢
      exact hfailed _ store trivial hkept
  | unanswered _ _ _ _ hreply => exact ⟨honly, hfailed reply _ hreply hkept⟩
  | lost _ _ _ _ hreply =>
    exact ⟨fun _ _ => rfl, hfailed reply store hreply fun other hother _ => hsame other hother⟩

end Keeps

end Stowage
