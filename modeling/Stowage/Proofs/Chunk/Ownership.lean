import Stowage.Chunk.Host
import Stowage.Proofs.Chunk.History
/-!
# Stowage — what a request can do to the store of a host

A chunk host answers any request, whatever its method, path, query and body. `Effect` lists what a
request can do to the store, and `effect_answer` says that there is nothing else: every path through
the routes, the name, the query, the length of the body and the store ends in one of its three cases.
From this one inversion follow the frame of a single visit (`Visit.Confined`) and, by induction on the
requests, what a whole run leaves of every payload (`answerAll_confined`).
-/

namespace Stowage.Chunk

open Http

namespace Host

/-- The reference that a request is about: the percent-decoded name of its path. -/
def subject? (r : Request) : Option String :=
  match routeOf r.target with
  | .payload name => reference? name
  | .health => none
  | .unknown => none

/-! ## A single request

A path through the host ends in one of many answers. Only two of them change the store, and both have
status 204; so it is enough to bound the status of all the others. -/

/-- What a request can do to a store: nothing, and then its answer is not 204; or a payload is put
under its reference, which takes nothing away from the one that was there; or the payload under its
reference is removed. -/
inductive Effect (s : Store) (r : Request) : Response × Store → Prop where
  | untouched {response : Response} (hstatus : response.status ≠ 204) : Effect s r (response, s)
  | put {response : Response} {ref : String} {p : Payload} (hmethod : r.method = "PUT")
      (hsubject : subject? r = some ref) (hstatus : response.status = 204)
      (hgrows : ∀ q, s.find? ref = some q → Store.Grows q p) : Effect s r (response, s.put ref p)
  | delete {response : Response} {ref : String} (hmethod : r.method = "DELETE")
      (hsubject : subject? r = some ref) (hstatus : response.status = 204)
      (hthere : s.contains ref) : Effect s r (response, s.remove ref)

variable {s : Store} {r : Request}

/-- No failure is answered with status 204. -/
theorem status_failed (why : CallError) : (failed why).status ≠ 204 := by
  cases why with
  | notFound ref => exact (by decide : (404 : Nat) ≠ 204)
  | refused why => exact (by decide : (400 : Nat) ≠ 204)
  | http why => exact (by decide : (400 : Nat) ≠ 204)
  | other text => exact (by decide : (400 : Nat) ≠ 204)

theorem status_badQuery (why : Query.Fault) : (badQuery why).status ≠ 204 :=
  (by decide : (400 : Nat) ≠ 204)

/-- A read is never answered with status 204. -/
theorem status_get (s : Store) (ref : String) (query : Bytes) : (get s ref query).status ≠ 204 := by
  unfold get
  cases Query.extent query with
  | error why => exact status_badQuery why
  | ok e =>
    simp only
    cases s.get ⟨ref, e.offset, e.length⟩ with
    | error why => exact status_failed why
    | ok w => exact (by decide : (200 : Nat) ≠ 204)

theorem status_preflight (r : Request) : (preflight r).status ≠ 204 := by
  have hstatus : (preflight r).status = 200 := by
    unfold preflight
    cases routeOf r.target <;> rfl
  rw [hstatus]
  decide

/-- A request to store a chunk either puts what the store has accepted, or is turned down by the query,
by the length of the body or by the store. -/
theorem effect_put {ref : String} (hmethod : r.method = "PUT") (hsubject : subject? r = some ref)
    (query body : Bytes) : Effect s r (put s ref query body) := by
  unfold put
  -- three ways not to get to the store, and two ways in which the store may answer
  cases Query.placement query with
  | error why => exact .untouched (status_badQuery why)
  | ok p =>
    simp only
    by_cases hlong : maxBody < body.length
    · rw [if_pos hlong]
      exact .untouched (by decide : (413 : Nat) ≠ 204)
    · rw [if_neg hlong]
      obtain ⟨haccepts, heq⟩ | ⟨-, why, heq⟩ :=
        s.answerStore_cases ⟨ref, body, p.offset, p.total, p.isLast⟩
      · rw [heq]
        refine .put hmethod hsubject rfl fun q hfind => ?_
        have hentry : s.find? ref = some q := hfind
        rw [hentry] at haccepts ⊢
        exact Store.grows_received haccepts
      · rw [heq]
        exact .untouched (status_failed (.refused why))

/-- A request to remove a payload removes one that is there, or finds none. -/
theorem effect_delete {ref : String} (hmethod : r.method = "DELETE")
    (hsubject : subject? r = some ref) : Effect s r (delete s ref) := by
  unfold delete
  by_cases hthere : s.contains ref
  · rw [if_pos hthere]
    exact .delete hmethod hsubject rfl hthere
  · rw [if_neg hthere]
    exact .untouched (status_failed (.notFound ref))

/-- What a request to a payload does, by its method. -/
theorem effect_answerPayload {name : String} (hroute : routeOf r.target = .payload name) :
    Effect s r (answerPayload s r name) := by
  unfold answerPayload
  -- the method decides, once the name has been decoded
  by_cases hknown : ["GET", "HEAD", "PUT", "DELETE"].contains r.method
  · rw [if_pos hknown]
    cases href : reference? name with
    | none => exact .untouched (by decide : (400 : Nat) ≠ 204)
    | some ref =>
      have hsubject : subject? r = some ref := by
        rw [subject?, hroute]
        exact href
      simp only
      by_cases hput : r.method = "PUT"
      · rw [if_pos hput]
        exact effect_put hput hsubject _ _
      · rw [if_neg hput]
        by_cases hdelete : r.method = "DELETE"
        · rw [if_pos hdelete]
          exact effect_delete hdelete hsubject
        · rw [if_neg hdelete]
          exact .untouched (status_get s ref _)
  · rw [if_neg hknown]
    exact .untouched (by decide : (405 : Nat) ≠ 204)

/-- What a request does, by its route. -/
theorem effect_answerRoute (s : Store) (r : Request) : Effect s r (answerRoute s r) := by
  unfold answerRoute
  cases hroute : routeOf r.target with
  | unknown => exact .untouched (by decide : (404 : Nat) ≠ 204)
  | health =>
    refine .untouched ?_
    split
    · exact (by decide : (200 : Nat) ≠ 204)
    · exact (by decide : (405 : Nat) ≠ 204)
  | payload name => exact effect_answerPayload hroute

/-- The headers and the body that every answer gets change neither its status nor the store. -/
theorem Effect.with_response {reply : Response × Store} (h : Effect s r reply)
    {response : Response} (hstatus : response.status = reply.1.status) :
    Effect s r (response, reply.2) := by
  cases h with
  | untouched hold => exact .untouched (hstatus ▸ hold)
  | put hmethod hsubject hold hgrows => exact .put hmethod hsubject (hstatus.trans hold) hgrows
  | delete hmethod hsubject hold hthere => exact .delete hmethod hsubject (hstatus.trans hold) hthere

/-- **Inversion.** Whatever a request is, its answer leaves the store in one of the three ways. -/
theorem effect_answer (s : Store) (r : Request) : Effect s r (answer s r) := by
  unfold answer
  by_cases hoptions : r.method = "OPTIONS"
  · rw [if_pos hoptions]
    exact .untouched (status_preflight r)
  · rw [if_neg hoptions]
    exact (effect_answerRoute s r).with_response rfl

/-! ## Runs

A run is the visits one after the other, each with the store before and after it. An entry that no visit
of the run removes stays and grows; what moves it is in the list of its visits. -/

/-- An answered request, with the store before and after. -/
structure Visit where
  request : Request
  response : Response
  before : Store
  after : Store

/-- The visits of a run of requests, in order. -/
def visits (s : Store) : List Request → List Visit
  | [] => []
  | r :: rest => ⟨r, (answer s r).1, s, (answer s r).2⟩ :: visits (answer s r).2 rest

/-- The store after a run of requests. -/
def answerAll (s : Store) (requests : List Request) : Store :=
  requests.foldl (fun s r => (answer s r).2) s

namespace Visit

/-- A visit that was answered with 204 and had a given method, on a reference. -/
def Does (v : Visit) (method ref : String) : Prop :=
  v.request.method = method ∧ v.response.status = 204 ∧ subject? v.request = some ref

/-- What a visit does to the store: a store call that was answered with 204 keeps the entry of its own
reference, which can only grow, a removal that was answered with 204 removes the entry of its own
reference, both leave every other entry, and any other visit leaves the whole store. -/
structure Confined (v : Visit) : Prop where
  put : v.request.method = "PUT" → v.response.status = 204 →
    ∃ ref p, v.Does "PUT" ref ∧ v.after = v.before.put ref p ∧
      (∀ q, v.before.find? ref = some q → Store.Grows q p) ∧
      ∀ other, v.after.find? other = if other = ref then some p else v.before.find? other
  delete : v.request.method = "DELETE" → v.response.status = 204 →
    ∃ ref, v.Does "DELETE" ref ∧ v.before.contains ref ∧ v.after = v.before.remove ref ∧
      ∀ other, v.after.find? other = if other = ref then none else v.before.find? other
  other : ¬(v.response.status = 204 ∧ (v.request.method = "PUT" ∨ v.request.method = "DELETE")) →
    v.after = v.before

/-- **One visit** is confined to the reference of its request. -/
theorem confined_answer (s : Store) (r : Request) :
    (⟨r, (answer s r).1, s, (answer s r).2⟩ : Visit).Confined := by
  have heffect := effect_answer s r
  generalize answer s r = reply at heffect
  cases heffect with
  | untouched hstatus =>
    exact ⟨fun _ h => absurd h hstatus, fun _ h => absurd h hstatus, fun _ => rfl⟩
  | @put response ref p hmethod hsubject hstatus hgrows =>
    refine ⟨fun _ _ => ?_, fun hdelete => ?_, fun hno => absurd ⟨hstatus, .inl hmethod⟩ hno⟩
    · exact ⟨ref, p, ⟨hmethod, hstatus, hsubject⟩, rfl, hgrows, fun other => s.find?_put ref other p⟩
    · rw [hmethod] at hdelete
      exact absurd hdelete (by decide)
  | @delete response ref hmethod hsubject hstatus hthere =>
    refine ⟨fun hput => ?_, fun _ _ => ?_, fun hno => absurd ⟨hstatus, .inr hmethod⟩ hno⟩
    · rw [hmethod] at hput
      exact absurd hput (by decide)
    · exact ⟨ref, ⟨hmethod, hstatus, hsubject⟩, hthere, rfl, s.find?_remove ref⟩

/-- An entry stays and grows over every visit that is no removal of it. -/
theorem Confined.grows {v : Visit} (h : v.Confined) {ref : String} (hno : ¬ v.Does "DELETE" ref)
    {p : Payload} (hfind : v.before.find? ref = some p) :
    ∃ q, v.after.find? ref = some q ∧ Store.Grows p q := by
  by_cases hdone : v.response.status = 204
  · by_cases hput : v.request.method = "PUT"
    · obtain ⟨own, q, -, -, hgrows, hfinds⟩ := h.put hput hdone
      rw [hfinds ref]
      by_cases hown : ref = own
      · subst hown
        exact ⟨q, if_pos rfl, hgrows p hfind⟩
      · exact ⟨p, (if_neg hown).trans hfind, .refl p⟩
    · by_cases hdelete : v.request.method = "DELETE"
      · obtain ⟨own, hdoes, -, -, hfinds⟩ := h.delete hdelete hdone
        have hown : ref ≠ own := fun heq => hno (heq ▸ hdoes)
        exact ⟨p, by rw [hfinds ref, if_neg hown, hfind], .refl p⟩
      · have hsame := h.other fun hboth => hboth.2.elim hput hdelete
        exact ⟨p, hsame ▸ hfind, .refl p⟩
  · have hsame := h.other fun hboth => hdone hboth.1
    exact ⟨p, hsame ▸ hfind, .refl p⟩

/-- An entry stays as it is over every visit that neither stores under its reference nor removes it. -/
theorem Confined.find?_eq {v : Visit} (h : v.Confined) {ref : String} (hput : ¬ v.Does "PUT" ref)
    (hdelete : ¬ v.Does "DELETE" ref) : v.after.find? ref = v.before.find? ref := by
  by_cases htouched :
      v.response.status = 204 ∧ (v.request.method = "PUT" ∨ v.request.method = "DELETE")
  · obtain ⟨hdone, hmethod | hmethod⟩ := htouched
    · obtain ⟨own, p, hdoes, -, -, hfinds⟩ := h.put hmethod hdone
      have hown : ref ≠ own := fun heq => hput (heq ▸ hdoes)
      rw [hfinds ref, if_neg hown]
    · obtain ⟨own, hdoes, -, -, hfinds⟩ := h.delete hmethod hdone
      have hown : ref ≠ own := fun heq => hdelete (heq ▸ hdoes)
      rw [hfinds ref, if_neg hown]
  · rw [h.other htouched]

end Visit

theorem answerAll_cons (s : Store) (r : Request) (rest : List Request) :
    answerAll s (r :: rest) = answerAll (answer s r).2 rest := rfl

/-- **Every visit of a run** is. Induction on the requests. -/
theorem confined_visits (requests : List Request) :
    ∀ s : Store, ∀ v ∈ visits s requests, v.Confined := by
  induction requests with
  | nil => exact fun s v hv => absurd hv List.not_mem_nil
  | cons r rest ih =>
    intro s v hv
    rw [visits, List.mem_cons] at hv
    obtain rfl | hv := hv
    · exact Visit.confined_answer s r
    · exact ih _ v hv

/-- Over a run without a removal of it, an entry stays and grows. Induction on the requests. -/
theorem find?_answerAll_grows {ref : String} (requests : List Request) :
    ∀ {s : Store} {p : Payload}, (∀ v ∈ visits s requests, ¬ v.Does "DELETE" ref) →
      s.find? ref = some p →
      ∃ q, (answerAll s requests).find? ref = some q ∧ Store.Grows p q := by
  induction requests with
  | nil => exact fun _ hfind => ⟨_, hfind, .refl _⟩
  | cons r rest ih =>
    intro s p hno hfind
    rw [visits, List.forall_mem_cons] at hno
    obtain ⟨q, hq, hpq⟩ := (Visit.confined_answer s r).grows hno.1 hfind
    obtain ⟨last, hlast, hqlast⟩ := ih hno.2 hq
    exact ⟨last, hlast, hpq.trans hqlast⟩

/-- Over a run that neither stores under a reference nor removes it, its entry stays as it is. -/
theorem find?_answerAll_eq {ref : String} (requests : List Request) :
    ∀ {s : Store}, (∀ v ∈ visits s requests, ¬ v.Does "PUT" ref ∧ ¬ v.Does "DELETE" ref) →
      (answerAll s requests).find? ref = s.find? ref := by
  induction requests with
  | nil => exact fun _ => rfl
  | cons r rest ih =>
    intro s hno
    rw [visits, List.forall_mem_cons] at hno
    rw [answerAll_cons, ih hno.2]
    exact (Visit.confined_answer s r).find?_eq hno.1.1 hno.1.2

/-- **Only the owner removes.** Whatever requests a host is asked, on whatever store, every one of them
is confined to what its method, its reference and its answer allow. A payload that is there at the start
is there at the end, with the same total and no shorter, unless a removal of its own reference was
answered with 204; and without any request on its reference that was answered so it is the same. -/
theorem answerAll_confined (s : Store) (requests : List Request) :
    (∀ v ∈ visits s requests, v.Confined) ∧
      (∀ ref p, (∀ v ∈ visits s requests, ¬ v.Does "DELETE" ref) → s.find? ref = some p →
        ∃ q, (answerAll s requests).find? ref = some q ∧ Store.Grows p q) ∧
      ∀ ref, (∀ v ∈ visits s requests, ¬ v.Does "PUT" ref ∧ ¬ v.Does "DELETE" ref) →
        (answerAll s requests).find? ref = s.find? ref := by
  refine ⟨confined_visits requests s, fun ref p hno hfind => ?_, fun ref hno => ?_⟩
  · exact find?_answerAll_grows requests hno hfind
  · exact find?_answerAll_eq requests hno

end Host

end Stowage.Chunk
