import Stowage.Proofs.Backend.Remote
import Stowage.Proofs.Json.Likeness
/-!
# Stowage — remote references that can be followed

A message is resolved if each of its references can be followed: the payload is fetched in full.
Whether that is so depends only on what the host holds under the reference (`Serving.preserved`), and
whether a value is a reference does not depend on its binary64 numbers (`recognize_alike`). So a
message can be resolved exactly when the value it spells is `Resolvable`: `succeeds_resolve`.
-/

namespace Stowage

open Chunk

/-! ## Markers

When a message is printed and read again, its binary64 numbers may change. None of the members that make
a marker is such a number, so the same values are markers afterwards. -/

/-- What stands under a key in a value stands under it in one like it. -/
theorem Json.Alike.get? {v w : Json} (h : Json.Alike v w) (key : String) :
    (v.get? key = none ∧ w.get? key = none) ∨
      ∃ a b, v.get? key = some a ∧ w.get? key = some b ∧ Json.Alike a b := by
  cases h with
  | object h => exact h.get? key
  | null | bool | whole | real | string | array => exact .inl ⟨rfl, rfl⟩

namespace Marker

variable {v w : Json}

/-- Values that are alike have the flag both or not at all: it is a boolean. -/
theorem isMarker_alike (h : Json.Alike v w) : isMarker v = isMarker w := by
  unfold isMarker
  rcases h.get? chunkedKey with ⟨hv, hw⟩ | ⟨a, b, hv, hw, halike⟩
  · rw [hv, hw]
  · rw [hv, hw]
    cases halike <;> rfl

/-- Values that are alike show the same id: it is a text. -/
theorem refOf_alike (h : Json.Alike v w) : refOf v = refOf w := by
  unfold refOf
  rcases h.get? refKey with ⟨hv, hw⟩ | ⟨a, b, hv, hw, halike⟩
  · rw [hv, hw]
  · rw [hv, hw]
    cases halike <;> rfl

/-- They show the same size as well, since only whole numbers count as one. -/
theorem totalSizeOf_alike (h : Json.Alike v w) (id : String) : totalSizeOf v id = totalSizeOf w id := by
  unfold totalSizeOf
  rcases h.get? totalSizeKey with ⟨hv, hw⟩ | ⟨a, b, hv, hw, halike⟩
  · rw [hv, hw]
  · rw [hv, hw]
    cases halike <;> rfl

/-- They name the same field: a path is a text, or `null`. -/
theorem fieldPathOf_alike (h : Json.Alike v w) (id : String) : fieldPathOf v id = fieldPathOf w id := by
  unfold fieldPathOf
  rcases h.get? fieldPathKey with ⟨hv, hw⟩ | ⟨a, b, hv, hw, halike⟩
  · rw [hv, hw]
  · rw [hv, hw]
    cases halike <;> rfl

end Marker

namespace Remote

/-- Values that differ in binary64 numbers only are recognized alike. -/
theorem recognize_alike {v w : Json} (h : Json.Alike v w) : recognize v = recognize w := by
  have hmarker : Marker.ofJson v = Marker.ofJson w := by
    unfold Marker.ofJson
    simp only [Marker.isMarker_alike h, Marker.refOf_alike h, Marker.totalSizeOf_alike h,
      Marker.fieldPathOf_alike h]
  rw [recognize, recognize, hmarker]

/-! ## Fetching

A fetch depends on what the host holds under the reference it asks for, and on nothing else. So whether
a reference can be followed can be said of the world at the start (`Serving`), although it is followed
after others. -/

/-- A call for a window changes nothing but the log. In time, the host in memory answers it. -/
theorem answer_get_eq {w : World} (hdirect : w.Direct) (r : GetRequest) (patience : Nat) :
    (World.answer (.get r patience) w).1 =
        (if patience < w.link.delay then none else some (w.link.delay, w.host.get r)) ∧
      Keeps w (World.answer (.get r patience) w).2 := by
  by_cases hlate : patience < w.link.delay
  · rw [if_pos hlate, World.answer, World.overLink, hdirect.script w.made]
    simp only [hlate, if_true]
    exact ⟨rfl, rfl, rfl⟩
  · rw [if_neg hlate, World.answer_get hdirect r (Nat.not_lt.mp hlate)]
    exact ⟨rfl, rfl, rfl⟩

theorem Keeps.refl (w : World) : Keeps w w := ⟨rfl, rfl⟩

theorem Keeps.trans {start w w' : World} (h : Keeps start w) (h' : Keeps w w') : Keeps start w' :=
  ⟨h'.1.trans h.1, h'.2.trans h.2⟩

/-- A fetch goes the same way in worlds whose hosts hold the same under its reference. -/
theorem run_fetch_same {start other : World} (hdirect : start.Direct) (hdirect' : other.Direct)
    (hdelay : other.link.delay = start.link.delay) {ref : String}
    (hhost : other.host.find? ref = start.host.find? ref) (t : Transfer) (total : Nat) {w w' : World}
    (hw : Keeps start w) (hw' : Keeps other w') :
    (World.run (t.fetch ref total) w).1 = (World.run (t.fetch ref total) w').1 ∧
      Keeps start (World.run (t.fetch ref total) w).2 ∧
      Keeps other (World.run (t.fetch ref total) w').2 := by
  -- each window is the same, since both hosts hold the same under the reference
  have hsame : ∀ offset patience w w', Keeps start w ∧ Keeps other w' →
      (World.answer (.get ⟨ref, offset, t.chunkSize⟩ patience) w).1 =
          (World.answer (.get ⟨ref, offset, t.chunkSize⟩ patience) w').1 ∧
        Keeps start (World.answer (.get ⟨ref, offset, t.chunkSize⟩ patience) w).2 ∧
        Keeps other (World.answer (.get ⟨ref, offset, t.chunkSize⟩ patience) w').2 := by
    rintro offset patience w w' ⟨hw, hw'⟩
    obtain ⟨hreply, hkept⟩ :=
      answer_get_eq (hdirect.of_link hw.1) ⟨ref, offset, t.chunkSize⟩ patience
    obtain ⟨hreply', hkept'⟩ :=
      answer_get_eq (hdirect'.of_link hw'.1) ⟨ref, offset, t.chunkSize⟩ patience
    have hget : w'.host.get ⟨ref, offset, t.chunkSize⟩ = w.host.get ⟨ref, offset, t.chunkSize⟩ := by
      unfold Store.get
      rw [hw.2, hw'.2, hhost]
    refine ⟨?_, hw.trans hkept, hw'.trans hkept'⟩
    rw [hreply, hreply', hw.1, hw'.1, hdelay, hget]
  exact t.run_fetchFrom_congr ref total hsame total [] _ w w' ⟨hw, hw'⟩

/-- What is fetched with success is nothing at all, or part of a payload that is there in full. -/
theorem find?_of_run_fetch {w : World} (hdirect : w.Direct) {t : Transfer} {ref : String} {total : Nat}
    {bytes : Bytes} (h : (World.run (t.fetch ref total) w).1 = .ok bytes) :
    total = 0 ∨ ∃ data, w.host.find? ref = some ⟨data.length, data⟩ := by
  cases total with
  | zero => exact .inl rfl
  | succ total =>
    -- the first call would be refused otherwise
    have hfirst := (answer_get_eq hdirect ⟨ref, 0, t.chunkSize⟩ t.deadline.nanoseconds).1
    rw [Transfer.fetch, Transfer.fetchFrom,
      if_pos (show ([] : Bytes).length < total + 1 from Nat.succ_pos total), World.run,
      Program.run_call, List.length_nil, hfirst] at h
    by_cases hlate : t.deadline.nanoseconds < w.link.delay
    · rw [if_pos hlate] at h
      cases h
    · rw [if_neg hlate] at h
      cases hfind : w.host.find? ref with
      | none =>
        rw [Store.get_of_none hfind] at h
        cases h
      | some p =>
        by_cases hcomplete : p.data.length = p.total
        · refine .inr ⟨p.data, ?_⟩
          rw [hcomplete]
        · rw [Store.get_of_incomplete hfind hcomplete] at h
          cases h

/-- A program ends with a result, and not with a failure. -/
def Succeeds {α : Type} (p : Program (Except Failure α)) (w : World) : Prop :=
  ∃ a, (World.run p w).1 = .ok a

/-- A composed program succeeds if both parts do, one after the other. -/
theorem succeeds_bind {α β : Type} {p : Program (Except Failure α)}
    {f : Except Failure α → Program (Except Failure β)} {w : World}
    (herror : ∀ failure, f (.error failure) = .done (.error failure)) :
    Succeeds (p >>= f) w ↔
      ∃ a, (World.run p w).1 = .ok a ∧ Succeeds (f (.ok a)) (World.run p w).2 := by
  have hrun : World.run (p >>= f) w = World.run (f (World.run p w).1) (World.run p w).2 :=
    Program.run_bind ..
  unfold Succeeds
  rw [hrun]
  cases hresult : (World.run p w).1 with
  | error failure =>
    rw [herror]
    constructor
    · rintro ⟨b, h⟩
      cases h
    · rintro ⟨a, h, -⟩
      cases h
  | ok a => simp only [Except.ok.injEq, exists_eq_left']

/-- What is done with a result does not matter, if it cannot fail. -/
theorem succeeds_map {α β : Type} {p : Program (Except Failure α)}
    {f : Except Failure α → Program (Except Failure β)} {w : World}
    (herror : ∀ failure, f (.error failure) = .done (.error failure))
    (hok : ∀ a, ∃ b, f (.ok a) = .done (.ok b)) : Succeeds (p >>= f) w ↔ Succeeds p w := by
  rw [succeeds_bind herror]
  constructor
  · rintro ⟨a, h, -⟩
    exact ⟨a, h⟩
  · rintro ⟨a, h⟩
    obtain ⟨b, hb⟩ := hok a
    refine ⟨a, h, b, ?_⟩
    rw [hb]
    rfl

/-- `Serving t start r`: in every world that keeps what `start` holds, a transfer fetches the payload
behind a reference. -/
def Serving (t : Transfer) (start : World) (r : Reference) : Prop :=
  ∀ w, Keeps start w → Succeeds (t.fetch r.id r.totalSize) w

/-- One fetch is like another. -/
theorem serving_iff {start w : World} (hdirect : start.Direct) {t : Transfer} {r : Reference}
    (hw : Keeps start w) : Serving t start r ↔ Succeeds (t.fetch r.id r.totalSize) w := by
  refine ⟨fun h => h w hw, ?_⟩
  rintro ⟨bytes, h⟩ w' hw'
  refine ⟨bytes, ?_⟩
  rw [← (run_fetch_same hdirect hdirect rfl rfl t r.totalSize hw hw').1, h]

/-- `Preserves w w'`: the payloads that the host holds in full are still there, and reached as before. -/
structure Preserves (w w' : World) : Prop where
  direct : w.Direct
  direct' : w'.Direct
  delay : w'.link.delay = w.link.delay
  stands : ∀ c ref, Stands c ref w → Stands c ref w'

/-- A later host serves what an earlier one did, as long as it keeps its payloads. -/
theorem Serving.preserved {w w' : World} (h : Preserves w w') {t : Transfer} {r : Reference}
    (hid : r.id ≠ "") (hserving : Serving t w r) : Serving t w' r := by
  obtain ⟨bytes, hok⟩ := hserving w (.refl w)
  rw [serving_iff h.direct' (.refl w')]
  rcases find?_of_run_fetch h.direct hok with hzero | ⟨data, hfind⟩
  · -- nothing is asked for, whoever is there
    rw [hzero]
    exact ⟨[], rfl⟩
  · have hfind' := (h.stands ⟨"", data, none⟩ r.id ⟨hid, hfind⟩).2
    obtain ⟨heq, -, -⟩ := run_fetch_same h.direct h.direct' h.delay (hfind'.trans hfind.symm) t
      r.totalSize (.refl w) (.refl w')
    exact ⟨bytes, heq.symm.trans hok⟩

/-! ## Resolving

Fields are resolved in order, and each fetch leaves the host as it was. By induction on the fields, all
of them can be followed if each could be at the start. -/

/-- A value that does not stop resolving: no reference, or one that is served. -/
def Followable (t : Transfer) (start : World) (value : Json) : Prop :=
  ∃ found, recognize value = .ok found ∧ ∀ r ∈ found, Serving t start r

/-- A value that can be resolved as a message: a served reference to all of it, or an object whose fields
can be followed, or neither. -/
inductive Resolvable (t : Transfer) (start : World) (value : Json) : Prop where
  | reference (r : Reference) (h : recognize value = .ok (some r)) (hpath : r.fieldPath = "")
      (hserving : Serving t start r)
  | plain (h : recognize value = .ok none)
      (hall : ∀ fields, value = .object fields → ∀ field ∈ fields, Followable t start field.2)

section

variable {t : Transfer} {threshold : Nat} {start : World} {value : Json}

/-- What looks like a reference and is none cannot be followed. -/
theorem not_followable {failure : Failure} (h : recognize value = .error failure) :
    ¬ Followable t start value := by simp [Followable, h]

/-- What is no reference has nothing to follow. -/
theorem followable_none (h : recognize value = .ok none) : Followable t start value := by
  simp [Followable, h]

/-- A reference can be followed as long as it is served. -/
theorem followable_some {r : Reference} (h : recognize value = .ok (some r)) :
    Followable t start value ↔ Serving t start r := by simp [Followable, h]

/-- A message that looks like a reference and is none cannot be resolved. -/
theorem not_resolvable {failure : Failure} (h : recognize value = .error failure) :
    ¬ Resolvable t start value := by
  rintro (⟨r, hr, -, -⟩ | ⟨hnone, -⟩)
  · rw [h] at hr
    cases hr
  · rw [h] at hnone
    cases hnone

/-- A reference for a message has to name no field, and to be served. -/
theorem resolvable_some {r : Reference} (h : recognize value = .ok (some r)) :
    Resolvable t start value ↔ r.fieldPath = "" ∧ Serving t start r := by
  constructor
  · rintro (⟨r', hr, hpath, hserving⟩ | ⟨hnone, -⟩)
    · rw [h] at hr
      cases hr
      exact ⟨hpath, hserving⟩
    · rw [h] at hnone
      cases hnone
  · rintro ⟨hpath, hserving⟩
    exact .reference r h hpath hserving

/-- Any other message is resolved field by field. -/
theorem resolvable_none (h : recognize value = .ok none) :
    Resolvable t start value ↔
      ∀ fields, value = .object fields → ∀ field ∈ fields, Followable t start field.2 := by
  constructor
  · rintro (⟨r, hr, -, -⟩ | ⟨-, hall⟩)
    · rw [h] at hr
      cases hr
    · exact hall
  · exact .plain h

/-- Rounding the numbers of a field does not make it another reference. -/
theorem Followable.alike {other : Json} (halike : Json.Alike value other)
    (h : Followable t start value) : Followable t start other := by
  rwa [Followable, ← recognize_alike halike]

/-- What could be followed can be followed later. -/
theorem Followable.preserved {later : World} (hpreserves : Preserves start later)
    (h : Followable t start value) : Followable t later value := by
  obtain ⟨found, hfound, hserving⟩ := h
  refine ⟨found, hfound, fun r hr => (hserving r hr).preserved hpreserves ?_⟩
  cases hr
  exact (recognize_eq_some_iff.mp hfound).id_ne

/-- **Fields are resolved** exactly if each of them can be followed. Induction on the fields, of which each
is one case of the recursion. -/
theorem succeeds_resolveFields (hdirect : start.Direct) (fields : Json.Members) :
    ∀ w, Keeps start w →
      (Succeeds (Message.resolveFields (backend t threshold) fields) w ↔
        ∀ field ∈ fields, Followable t start field.2) := by
  induction fields with
  | nil => exact fun w hw => ⟨fun _ field hfield => absurd hfield List.not_mem_nil, fun _ => ⟨_, rfl⟩⟩
  | cons field rest ih =>
    intro w hw
    obtain ⟨key, value⟩ := field
    rw [List.forall_mem_cons, Message.resolveFields]
    cases hrecognize : recognize value with
    | error failure =>
      have hvalue : (backend t threshold).recognize value = .error failure := hrecognize
      rw [hvalue]
      refine iff_of_false ?_ fun h => not_followable hrecognize h.1
      rintro ⟨_, h⟩
      cases h
    | ok found =>
      have hvalue : (backend t threshold).recognize value = .ok found := hrecognize
      rw [hvalue]
      cases found with
      | none =>
        simp only [followable_none hrecognize, true_and]
        refine (succeeds_map ?_ ?_).trans (ih w hw)
        · exact fun _ => rfl
        · exact fun _ => ⟨_, rfl⟩
      | some r =>
        -- the world has changed by the fetch, but not in what it holds
        obtain ⟨-, hkept, -⟩ := run_fetch_same hdirect hdirect rfl rfl t r.totalSize hw hw
        rw [followable_some hrecognize, serving_iff hdirect hw, ← ih _ hkept]
        simp only
        refine (succeeds_bind ?_).trans ?_
        · exact fun _ => rfl
        · rw [Succeeds, exists_and_right.symm]
          refine exists_congr fun bytes => and_congr_right fun _ => succeeds_map ?_ ?_
          · exact fun _ => rfl
          · exact fun _ => ⟨_, rfl⟩

/-- **Resolving succeeds** exactly for messages that are no JSON or spell a resolvable value. -/
theorem succeeds_resolve (hdirect : start.Direct) (message : Bytes) {w : World} (hw : Keeps start w) :
    Succeeds (Message.resolve (backend t threshold) message) w ↔
      ∀ value, Json.read? message = some value → Resolvable t start value := by
  unfold Message.resolve
  cases hread : Json.read? message with
  | none => exact iff_of_true ⟨_, rfl⟩ fun value h => by cases h
  -- the cases are those of resolving: what the message itself is recognized as, then its fields
  | some value =>
    simp only [Option.some.injEq, forall_eq']
    cases hrecognize : recognize value with
    | error failure =>
      have hvalue : (backend t threshold).recognize value = .error failure := hrecognize
      rw [hvalue]
      refine iff_of_false ?_ (not_resolvable hrecognize)
      rintro ⟨_, h⟩
      cases h
    | ok found =>
      have hvalue : (backend t threshold).recognize value = .ok found := hrecognize
      rw [hvalue]
      cases found with
      | some r =>
        rw [resolvable_some hrecognize, serving_iff hdirect hw]
        by_cases hpath : r.fieldPath = ""
        · simp only [hpath, String.isEmpty_iff.mpr, true_and]
          exact Iff.rfl
        · simp only [String.isEmpty_iff, hpath, false_and, if_false]
          refine iff_of_false ?_ id
          rintro ⟨_, h⟩
          cases h
      | none =>
        rw [resolvable_none hrecognize]
        cases value with
        | object fields =>
          simp only [Json.object.injEq, forall_eq']
          -- resolving the fields and putting the message together succeed with each other
          have hfields : Succeeds (Message.resolveFields (backend t threshold) fields) w ↔ _ :=
            succeeds_resolveFields hdirect fields w hw
          rw [← hfields]
          refine succeeds_map ?_ ?_
          · exact fun _ => rfl
          · rintro ⟨_, resolved⟩
            cases resolved <;> exact ⟨_, rfl⟩
        | _ => exact iff_of_true ⟨_, rfl⟩ fun fields h => by cases h

end

end Remote

end Stowage
