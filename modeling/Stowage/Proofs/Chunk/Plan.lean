import Stowage.Proofs.Chunk.Storing
/-!
# Stowage — the calls that store a payload

Which calls store a payload is settled before the first of them is made: the plan has a request for
every chunk size begun (`Plans`, `plans_plan`). What a client makes of the calls decides only how far
the plan is followed. `Delivers` is the relation beside the run of a transfer, with one case for each
thing that can become of a call: it is the last one of the plan, it fails, or the next one follows.
What is true of a whole transfer follows from it by induction: `store_follows_plan`.
-/

namespace Stowage.Chunk

namespace Transfer

/-! ## The plan -/

section

variable {size offset : Nat} {data : Bytes} {ws : List (Nat × Bytes)}

/-- An empty payload has no windows, and no other does. -/
theorem Tiles.eq_nil_iff (h : Tiles size offset data ws) : ws = [] ↔ data = [] := by
  cases h with
  | nil => simp
  | cons offset chunk rest windows hne => simp [hne]

/-- Nothing is left out, and nothing comes twice. -/
theorem Tiles.flatMap_windows (h : Tiles size offset data ws) : ws.flatMap Prod.snd = data := by
  induction h with
  | nil offset => rfl
  | cons offset chunk rest windows _ _ _ _ ih => rw [List.flatMap_cons, ih]

/-- Every window starts where the full windows before it end, and the last window is the one that ends
where the payload does. -/
theorem Tiles.of_getElem? (h : Tiles size offset data ws) :
    ∀ (i : Nat) (w : Nat × Bytes), ws[i]? = some w → w.1 = offset + i * size ∧
      (offset + data.length ≤ w.1 + w.2.length ↔ i + 1 = ws.length) := by
  induction h with
  | nil offset => exact fun i w hw => nomatch hw
  | cons offset chunk rest windows hne hle hfull hrest ih =>
    intro i w hw
    rw [List.length_append, List.length_cons]
    cases i with
    | zero =>
      cases hw
      refine ⟨by rw [Nat.zero_mul, Nat.add_zero], ?_⟩
      have hnil : rest.length = 0 ↔ windows.length = 0 := by
        rw [List.length_eq_zero_iff, List.length_eq_zero_iff, hrest.eq_nil_iff]
      simp only
      omega
    | succ i =>
      rw [List.getElem?_cons_succ] at hw
      obtain ⟨hoffset, hlast⟩ := ih i w hw
      -- the window is not the first, so the first one is full
      have hwindows : windows ≠ [] := List.ne_nil_of_mem (List.mem_of_getElem? hw)
      have hlength := hfull fun hnil => hwindows (hrest.eq_nil_iff.mpr hnil)
      refine ⟨by rw [hoffset, hlength, Nat.succ_mul]; omega, ?_⟩
      rw [← Nat.add_assoc, hlast]
      omega

end

/-- `Plans ref data size plan`: the requests cut a payload into pieces of `size` bytes, of which only
the last may be shorter. -/
structure Plans (ref : String) (data : Bytes) (size : Nat) (plan : List StoreRequest) : Prop where
  length : plan.length = (data.length + size - 1) / size
  offset : ∀ (i : Nat) (r : StoreRequest), plan[i]? = some r → r.offset = i * size
  isLast : ∀ (i : Nat) (r : StoreRequest), plan[i]? = some r → (r.isLast = true ↔ i + 1 = plan.length)
  size_le : ∀ r ∈ plan, r.data.length ≤ size
  /-- No offset leaves the payload, so none wraps around. -/
  stop_le : ∀ r ∈ plan, r.offset + r.data.length ≤ data.length
  same : ∀ r ∈ plan, r.ref = ref ∧ r.total = data.length
  concat : plan.flatMap StoreRequest.data = data

theorem plan_eq (t : Transfer) (ref : String) (data : Bytes) :
    t.plan ref data = (windows t.chunkSize data).map (request ref data.length) := rfl

/-- **The plan** of a payload cuts it into pieces of the chunk size. -/
theorem plans_plan (t : Transfer) (ref : String) (data : Bytes) :
    Plans ref data t.chunkSize (t.plan ref data) := by
  have htiles := tiles_windows t.one_le_chunkSize data
  -- every request is that of a window, so what is known of windows is known of requests
  have hwindow : ∀ (i : Nat) (r : StoreRequest), (t.plan ref data)[i]? = some r →
      ∃ w, (windows t.chunkSize data)[i]? = some w ∧ request ref data.length w = r := by
    intro i r hr
    rw [plan_eq, List.getElem?_map] at hr
    exact Option.map_eq_some_iff.mp hr
  have hmem : ∀ r ∈ t.plan ref data,
      ∃ w ∈ windows t.chunkSize data, request ref data.length w = r :=
    fun r hr => List.mem_map.mp hr
  refine ⟨?_, ?_, ?_, ?_, ?_, ?_, ?_⟩
  · rw [plan_eq, List.length_map]
    exact htiles.length_windows t.one_le_chunkSize
  · intro i r hr
    obtain ⟨w, hw, rfl⟩ := hwindow i r hr
    exact (htiles.of_getElem? i w hw).1.trans (Nat.zero_add _)
  · intro i r hr
    obtain ⟨w, hw, rfl⟩ := hwindow i r hr
    have hlast := (htiles.of_getElem? i w hw).2
    rw [Nat.zero_add] at hlast
    rw [plan_eq, List.length_map, ← hlast]
    exact decide_eq_true_iff
  · intro r hr
    obtain ⟨w, hw, rfl⟩ := hmem r hr
    exact Nat.le_trans (htiles.bounds w hw).1 (Nat.min_le_left ..)
  · intro r hr
    obtain ⟨w, hw, rfl⟩ := hmem r hr
    have hstop := (htiles.bounds w hw).2
    rwa [Nat.zero_add] at hstop
  · intro r hr
    obtain ⟨w, -, rfl⟩ := hmem r hr
    exact ⟨rfl, rfl⟩
  · rw [plan_eq, List.flatMap_map]
    exact htiles.flatMap_windows

end Transfer

/-! ## What becomes of the calls

A world may answer each call as it likes, but not change which one comes next. So a transfer issues the
plan from its start, as far as it gets. -/

/-- A call to store a window and its reply. -/
structure Delivery where
  request : StoreRequest
  patience : Nat
  reply : Timed (Except CallError Unit)

namespace Delivery

def exchange (d : Delivery) : (c : Call) × c.Reply := ⟨.store d.request d.patience, d.reply⟩

/-- The window was taken. -/
def Succeeds (d : Delivery) : Prop := ∃ spent, d.reply = some (spent, .ok ())

end Delivery

namespace Transfer

/-- `Fails t d failure`: a call does not succeed, and this is what the transfer fails with. An unknown
reference stays one, and any other failure of a call gets the offset of its request. -/
inductive Fails (t : Transfer) (d : Delivery) : Failure → Prop where
  | late (h : d.reply = none) : Fails t d (.timeout t.deadline)
  | notFound (spent : Nat) (id : String) (h : d.reply = some (spent, .error (.notFound id))) :
      Fails t d (.notFound id)
  | transport (spent : Nat) (why : CallError) (h : d.reply = some (spent, .error why))
      (hwhy : ∀ id, why ≠ .notFound id) : Fails t d (.transport d.request.offset (.call why))

variable {t : Transfer} {plan : List StoreRequest} {log : List Delivery}
  {result : Except Failure Unit}

/-- A call that makes a transfer fail has not succeeded. -/
theorem Fails.not_succeeds {d : Delivery} {failure : Failure} (h : Fails t d failure) :
    ¬ d.Succeeds := by
  rintro ⟨spent, hreply⟩
  cases h with
  | late h => exact nomatch h.symm.trans hreply
  | notFound _ _ h => exact nomatch h.symm.trans hreply
  | transport _ _ h => exact nomatch h.symm.trans hreply

/-- An answer that is an error makes the transfer fail at the offset of its request. -/
theorem fails_error {d : Delivery} {spent : Nat} {why : CallError}
    (h : d.reply = some (spent, .error why)) : Fails t d (why.atOffset d.request.offset) := by
  cases why with
  | notFound id => exact .notFound spent id h
  | refused why => exact .transport spent _ h nofun
  | http why => exact .transport spent _ h nofun
  | other text => exact .transport spent _ h nofun

/-- `Delivers t plan log result`: a transfer with a plan makes the calls of the log, gets its replies, and
ends with a result. -/
inductive Delivers (t : Transfer) :
    List StoreRequest → List Delivery → Except Failure Unit → Prop where
  | all : Delivers t [] [] (.ok ())
  | stops (d : Delivery) (rest : List StoreRequest) (failure : Failure)
      (hfails : Fails t d failure) : Delivers t (d.request :: rest) [d] (.error failure)
  | goesOn (d : Delivery) (rest : List StoreRequest) (log : List Delivery)
      (result : Except Failure Unit) (hd : d.Succeeds) (hrest : Delivers t rest log result) :
      Delivers t (d.request :: rest) (d :: log) result

/-- The calls of a transfer are delivered one after the other. Induction on what is left of the plan. -/
theorem delivers_storeAll (t : Transfer) {σ : Type} (world : Answering σ) (plan : List StoreRequest) :
    ∀ (patience : Nat) (s : σ), ∃ log,
      (t.storeAll plan patience).exchanges world s = log.map Delivery.exchange ∧
        Delivers t plan log ((t.storeAll plan patience).run world s).1 := by
  induction plan with
  | nil => exact fun patience s => ⟨[], rfl, .all⟩
  | cons r rest ih =>
    intro patience s
    rw [storeAll, Program.exchanges_call, Program.run_call]
    generalize (world (.store r patience) s).2 = s'
    generalize (world (.store r patience) s).1 = reply
    -- a reply that is not a success is the last
    have hstops : ∀ failure, Fails t ⟨r, patience, reply⟩ failure →
        Delivers t (r :: rest) [⟨r, patience, reply⟩] (.error failure) :=
      fun failure hfails => .stops ⟨r, patience, reply⟩ rest failure hfails
    cases reply with
    | none => exact ⟨[_], rfl, hstops _ (.late rfl)⟩
    | some answer =>
      obtain ⟨spent, outcome⟩ := answer
      cases outcome with
      | error why => exact ⟨[_], rfl, hstops _ (fails_error rfl)⟩
      | ok =>
        obtain ⟨log, hlog, hrest⟩ := ih (patience - spent) s'
        set d : Delivery := ⟨r, patience, some (spent, .ok ())⟩
        refine ⟨d :: log, ?_, .goesOn d rest log _ ⟨spent, rfl⟩ hrest⟩
        rw [List.map_cons, ← hlog]
        rfl

namespace Delivers

/-- The calls are the first requests of the plan. -/
theorem issued (h : Delivers t plan log result) : log.map Delivery.request <+: plan := by
  induction h with
  | all => exact List.prefix_refl []
  | stops d rest failure _ => exact ⟨rest, rfl⟩
  | goesOn d rest log result _ _ ih => exact List.cons_prefix_cons.mpr ⟨rfl, ih⟩

/-- A transfer succeeds exactly if all requests of the plan were made and every call succeeded. -/
theorem ok_iff (h : Delivers t plan log result) :
    result = .ok () ↔ log.map Delivery.request = plan ∧ ∀ d ∈ log, d.Succeeds := by
  induction h with
  | all => simp
  | stops d rest failure hfails =>
    exact iff_of_false nofun fun ⟨_, hall⟩ => hfails.not_succeeds (hall d (List.mem_singleton_self d))
  | goesOn d rest log result hd _ ih => simp [ih, hd]

/-- A transfer that fails stops at the first call that does not succeed, and fails with that call. -/
theorem failed {failure : Failure} (h : Delivers t plan log (.error failure)) :
    ∃ before last, log = before ++ [last] ∧ (∀ d ∈ before, d.Succeeds) ∧ Fails t last failure := by
  generalize hresult : Except.error failure = result at h
  induction h with
  | all => cases hresult
  | stops d rest other hfails =>
    cases hresult
    exact ⟨[], d, rfl, nofun, hfails⟩
  | goesOn d rest log result hd _ ih =>
    obtain ⟨before, last, rfl, hbefore, hfails⟩ := ih hresult
    exact ⟨d :: before, last, rfl, List.forall_mem_cons.mpr ⟨hd, hbefore⟩, hfails⟩

end Delivers

/-- `Follows t plan log result`: what a transfer does with its plan, whoever answers. -/
structure Follows (t : Transfer) (plan : List StoreRequest) (log : List Delivery)
    (result : Except Failure Unit) : Prop where
  issued : log.map Delivery.request <+: plan
  ok_iff : result = .ok () ↔ log.map Delivery.request = plan ∧ ∀ d ∈ log, d.Succeeds
  failed : ∀ failure, result = .error failure →
    ∃ before last, log = before ++ [last] ∧ (∀ d ∈ before, d.Succeeds) ∧ Fails t last failure

/-- **Storing follows a plan.** The calls that store a payload are the first requests of a plan that the
payload and the chunk size alone decide; a chunk size of zero counts as one. In every world, the transfer
succeeds exactly if it made all of them and all of them succeeded, and otherwise it stops right after
the first that did not, with a failure that says why, and where. -/
theorem store_follows_plan (chunkSize : Nat) (deadline : Duration) (ref : String) (data : Bytes)
    {σ : Type} (world : Answering σ) (s : σ) :
    ∃ plan log, Plans ref data (max chunkSize 1) plan ∧
      ((make chunkSize deadline).store ref data).exchanges world s = log.map Delivery.exchange ∧
      Follows (make chunkSize deadline) plan log
        (((make chunkSize deadline).store ref data).run world s).1 := by
  set t := make chunkSize deadline
  obtain ⟨log, hlog, hdelivers⟩ :=
    t.delivers_storeAll world (t.plan ref data) t.deadline.nanoseconds s
  refine ⟨t.plan ref data, log, t.plans_plan ref data, hlog, hdelivers.issued, hdelivers.ok_iff, ?_⟩
  intro failure hfailure
  have herror : Delivers t (t.plan ref data) log (.error failure) := by
    rw [← hfailure]
    exact hdelivers
  exact herror.failed

end Transfer

end Stowage.Chunk
