import Mathlib.Tactic.Common
import Stowage.Chunk.Transfer
import Stowage.Proofs.Program
/-!
# Stowage — what a fetch asks and what it makes of the answers

Whoever answers the calls of a fetch may answer anything: windows that are empty, too long or beyond
the declared total, that claim to be the last too early or never, failures, or nothing at all. A
`Transcript` is the list of calls and replies of a fetch with its result, described without a loop:

* `transcript_fetch` — in every world, the exchanges of a fetch form a transcript;
* `Transcript.length_add_le`, `Transcript.request_eq`, `Transcript.pairwise_offset`,
  `Transcript.goesOn_of_lt`, `Transcript.stops` — what is asked, and when asking stops;
* `Transcript.of_ok`, `Transcript.of_error`, `Transcript.eq_error_of_mem` — what the result says about
  the replies.

`fetch_reassembles` puts them together for a whole fetch.
-/

namespace Stowage.Chunk

/-- A call for a window and its reply. -/
structure Inquiry where
  request : GetRequest
  patience : Nat
  reply : Timed (Except CallError Window)

namespace Inquiry

def exchange (q : Inquiry) : (c : Call) × c.Reply := ⟨.get q.request q.patience, q.reply⟩

/-- The bytes in the reply, acceptable or not. -/
def data (q : Inquiry) : Bytes :=
  match q.reply with
  | some (_, .ok w) => w.data
  | _ => []

end Inquiry

namespace Transfer

/-- A window is acceptable if it brings something, no more than was asked for, and nothing beyond the
declared total. -/
def Acceptable (t : Transfer) (total received : Nat) (w : Window) : Prop :=
  w.data ≠ [] ∧ w.data.length ≤ t.chunkSize ∧ received + w.data.length ≤ total

instance (t : Transfer) (total received : Nat) (w : Window) :
    Decidable (t.Acceptable total received w) :=
  inferInstanceAs (Decidable (_ ∧ _ ∧ _))

/-- What has been accepted after one more reply. -/
def accepting (t : Transfer) (total : Nat) (received : Bytes) (q : Inquiry) : Bytes :=
  match q.reply with
  | some (_, .ok w) => if t.Acceptable total received.length w then received ++ w.data else received
  | _ => received

/-- What has been accepted after a list of replies. -/
def accepted (t : Transfer) (total : Nat) (received : Bytes) (log : List Inquiry) : Bytes :=
  log.foldl (t.accepting total) received

theorem accepted_cons (t : Transfer) (total : Nat) (received : Bytes) (q : Inquiry)
    (log : List Inquiry) :
    t.accepted total received (q :: log) = t.accepted total (t.accepting total received q) log :=
  rfl

/-- What a transfer makes of a window: it takes one that is acceptable, stops at an empty one, and refuses
one that is too long or goes beyond the declared total. -/
theorem accept_cases (t : Transfer) (total : Nat) (received : Bytes) (w : Window) :
    (t.Acceptable total received.length w ∧
        t.accept total received w = .ok (received ++ w.data, w.isLast)) ∨
      (w.data = [] ∧ t.accept total received w = .ok (received, true)) ∨
      (t.chunkSize < w.data.length ∧ t.accept total received w =
        .error (.transport received.length (.windowTooLong w.data.length t.chunkSize))) ∨
      (total < received.length + w.data.length ∧
        t.accept total received w = .error (.transport received.length (.overrun total))) := by
  unfold accept
  -- the checks in their order: no data, too much data, more than is declared
  by_cases hempty : w.data = []
  · rw [if_pos (by simpa using hempty)]
    exact .inr (.inl ⟨hempty, rfl⟩)
  · rw [if_neg (by simpa using hempty)]
    by_cases hlong : t.chunkSize < w.data.length
    · rw [if_pos hlong]
      exact .inr (.inr (.inl ⟨hlong, rfl⟩))
    · rw [if_neg hlong]
      by_cases hover : total < received.length + w.data.length
      · rw [if_pos hover]
        exact .inr (.inr (.inr ⟨hover, rfl⟩))
      · rw [if_neg hover]
        exact .inl ⟨⟨hempty, Nat.not_lt.mp hlong, Nat.not_lt.mp hover⟩, rfl⟩

/-- A transfer takes an acceptable window, and goes on with its bytes. -/
theorem accept_of_acceptable {t : Transfer} {total : Nat} {received : Bytes} {w : Window}
    (h : t.Acceptable total received.length w) :
    t.accept total received w = .ok (received ++ w.data, w.isLast) := by
  obtain ⟨hne, hlong, hover⟩ := h
  rcases t.accept_cases total received w with ⟨-, heq⟩ | ⟨hempty, -⟩ | ⟨hlong', -⟩ | ⟨hover', -⟩
  · exact heq
  · exact absurd hempty hne
  · omega
  · omega

/-! ## Transcripts

A transcript lists what a fetch asked and what it was answered, and says of every answer but the last
that it was one to go on from. Whoever answers, the calls of a fetch form one. -/

/-- `Ends t total received reply result`: the reply is the last of a fetch that has accepted `received`,
and decides its result. -/
inductive Ends (t : Transfer) (total : Nat) (received : Bytes) :
    Timed (Except CallError Window) → Except Failure Bytes → Prop where
  | late : Ends t total received none (.error (.timeout t.deadline))
  | failed (spent : Nat) (why : CallError) :
      Ends t total received (some (spent, .error why)) (.error (why.atOffset received.length))
  | empty (spent : Nat) (w : Window) (hempty : w.data = []) :
      Ends t total received (some (spent, .ok w))
        (.error (.transport received.length (.endedEarly received.length total)))
  | tooLong (spent : Nat) (w : Window) (hlong : t.chunkSize < w.data.length) :
      Ends t total received (some (spent, .ok w))
        (.error (.transport received.length (.windowTooLong w.data.length t.chunkSize)))
  | overrun (spent : Nat) (w : Window) (hover : total < received.length + w.data.length) :
      Ends t total received (some (spent, .ok w))
        (.error (.transport received.length (.overrun total)))
  | last (spent : Nat) (w : Window) (h : t.Acceptable total received.length w)
      (hlast : w.isLast = true) (hall : received.length + w.data.length = total) :
      Ends t total received (some (spent, .ok w)) (.ok (received ++ w.data))
  | early (spent : Nat) (w : Window) (h : t.Acceptable total received.length w)
      (hlast : w.isLast = true) (hshort : received.length + w.data.length < total) :
      Ends t total received (some (spent, .ok w))
        (.error (.transport (received.length + w.data.length)
          (.endedEarly (received.length + w.data.length) total)))

/-- `Transcript t ref total received log result`: having accepted `received`, a fetch makes the calls of
`log`, gets its replies, and ends with `result`. -/
inductive Transcript (t : Transfer) (ref : String) (total : Nat) :
    Bytes → List Inquiry → Except Failure Bytes → Prop where
  | whole (received : Bytes) (htotal : received.length = total) :
      Transcript t ref total received [] (.ok received)
  | ends (received : Bytes) (patience : Nat) (reply : Timed (Except CallError Window))
      (result : Except Failure Bytes) (hmore : received.length < total)
      (hends : Ends t total received reply result) :
      Transcript t ref total received [⟨⟨ref, received.length, t.chunkSize⟩, patience, reply⟩] result
  | goesOn (received : Bytes) (patience spent : Nat) (w : Window) (log : List Inquiry)
      (result : Except Failure Bytes) (h : t.Acceptable total received.length w)
      (hlast : w.isLast = false) (hrest : Transcript t ref total (received ++ w.data) log result) :
      Transcript t ref total received
        (⟨⟨ref, received.length, t.chunkSize⟩, patience, some (spent, .ok w)⟩ :: log) result

variable {t : Transfer} {ref : String} {total : Nat}

/-- The last window ends a fetch, well or early. -/
theorem Ends.of_last {received : Bytes} {w : Window} (spent : Nat)
    (h : t.Acceptable total received.length w) (hlast : w.isLast = true) :
    Ends t total received (some (spent, .ok w)) (complete total (received ++ w.data)) := by
  have hfits := h.2.2
  rw [complete, List.length_append]
  split
  · next hall => exact .last spent w h hlast hall
  · next hshort => exact .early spent w h hlast (by omega)

/-- The calls of a fetch that goes on form a transcript. Induction on the fuel, of which there is enough
for the bytes that are missing. -/
theorem transcript_fetchFrom {σ : Type} (world : Answering σ) :
    ∀ (fuel : Nat) (received : Bytes) (patience : Nat) (s : σ), received.length ≤ total →
      total ≤ fuel + received.length →
      ∃ log, (t.fetchFrom ref total fuel received patience).exchanges world s =
          log.map Inquiry.exchange ∧
        Transcript t ref total received log
          ((t.fetchFrom ref total fuel received patience).run world s).1 := by
  intro fuel
  induction fuel with
  | zero =>
    intro received patience s hle hfuel
    have htotal : received.length = total := by omega
    refine ⟨[], rfl, ?_⟩
    show Transcript t ref total received [] (complete total received)
    rw [complete, if_pos htotal]
    exact .whole received htotal
  | succ fuel ih =>
    intro received patience s hle hfuel
    rw [fetchFrom]
    by_cases hmore : received.length < total
    · rw [if_pos hmore, Program.exchanges_call, Program.run_call]
      generalize (world (.get ⟨ref, received.length, t.chunkSize⟩ patience) s).2 = s'
      generalize (world (.get ⟨ref, received.length, t.chunkSize⟩ patience) s).1 = reply
      -- a reply that ends the fetch is the only one of the log
      have hsingle : ∀ result, Ends t total received reply result →
          Transcript t ref total received
            [⟨⟨ref, received.length, t.chunkSize⟩, patience, reply⟩] result :=
        fun result h => .ends received patience reply result hmore h
      match reply with
      | none => exact ⟨[_], rfl, hsingle _ .late⟩
      | some (spent, .error why) => exact ⟨[_], rfl, hsingle _ (.failed spent why)⟩
      | some (spent, .ok w) =>
        simp only
        rcases t.accept_cases total received w with ⟨hacceptable, heq⟩ | ⟨hempty, heq⟩ |
          ⟨hlong, heq⟩ | ⟨hover, heq⟩
        · rw [heq]
          cases hlast : w.isLast with
          | true => exact ⟨[_], rfl, hsingle _ (.of_last spent hacceptable hlast)⟩
          | false =>
            -- an acceptable window brings a byte, so that the fuel suffices for the rest
            have hpos : 0 < w.data.length := List.length_pos_iff.mpr hacceptable.1
            obtain ⟨log, hlog, htranscript⟩ := ih (received ++ w.data) (patience - spent) s'
              (by rw [List.length_append]; exact hacceptable.2.2)
              (by rw [List.length_append]; omega)
            refine ⟨⟨⟨ref, received.length, t.chunkSize⟩, patience, some (spent, .ok w)⟩ :: log, ?_,
              .goesOn received patience spent w log _ hacceptable hlast htranscript⟩
            rw [List.map_cons, ← hlog]
            rfl
        · rw [heq]
          have hcomplete : complete total received =
              .error (.transport received.length (.endedEarly received.length total)) :=
            if_neg (Nat.ne_of_lt hmore)
          simp only [hcomplete]
          exact ⟨[_], rfl, hsingle _ (.empty spent w hempty)⟩
        · rw [heq]
          exact ⟨[_], rfl, hsingle _ (.tooLong spent w hlong)⟩
        · rw [heq]
          exact ⟨[_], rfl, hsingle _ (.overrun spent w hover)⟩
    · have htotal : received.length = total := by omega
      rw [if_neg hmore, complete, if_pos htotal]
      exact ⟨[], rfl, .whole received htotal⟩

/-- The calls of a fetch form a transcript that starts with nothing received. -/
theorem transcript_fetch (t : Transfer) (ref : String) (total : Nat) {σ : Type}
    (world : Answering σ) (s : σ) :
    ∃ log, (t.fetch ref total).exchanges world s = log.map Inquiry.exchange ∧
      Transcript t ref total [] log ((t.fetch ref total).run world s).1 :=
  transcript_fetchFrom world total [] t.deadline.nanoseconds s (Nat.zero_le _) (Nat.le_refl _)

/-! ## How a fetch ends

It ends well with an acceptable window that makes the bytes complete. It ends badly with no answer, with
a refused call, or with a window that is too much, of no use, or the last one too early. -/

theorem accepting_of_acceptable {received : Bytes} {w : Window}
    (h : t.Acceptable total received.length w) (request : GetRequest) (patience spent : Nat) :
    t.accepting total received ⟨request, patience, some (spent, .ok w)⟩ = received ++ w.data :=
  if_pos h

theorem accepting_of_not_acceptable {received : Bytes} {w : Window}
    (h : ¬ t.Acceptable total received.length w) (request : GetRequest) (patience spent : Nat) :
    t.accepting total received ⟨request, patience, some (spent, .ok w)⟩ = received :=
  if_neg h

/-- A fetch that ends well ends with an acceptable window and all of the declared bytes. -/
theorem Ends.of_ok {received bytes : Bytes} {reply : Timed (Except CallError Window)}
    (h : Ends t total received reply (.ok bytes)) :
    ∃ spent w, reply = some (spent, .ok w) ∧ t.Acceptable total received.length w ∧
      bytes = received ++ w.data ∧ bytes.length = total := by
  generalize hresult : Except.ok bytes = result at h
  cases h with
  | last spent w hacceptable _ hall =>
    cases hresult
    exact ⟨spent, w, rfl, hacceptable, rfl, List.length_append.trans hall⟩
  | _ => cases hresult

/-- A fetch that ends badly lacks declared bytes. Either it was not answered, or it was told that there is
no payload, or it reports how much it has accepted. -/
theorem Ends.of_error {received : Bytes} {reply : Timed (Except CallError Window)}
    {failure : Failure} (h : Ends t total received reply (.error failure))
    (hmore : received.length < total) (request : GetRequest) (patience : Nat) :
    (t.accepting total received ⟨request, patience, reply⟩).length < total ∧
      ((reply = none ∧ failure = .timeout t.deadline) ∨
        (∃ spent id, reply = some (spent, .error (.notFound id)) ∧ failure = .notFound id) ∨
        ∃ fault, failure =
          .transport (t.accepting total received ⟨request, patience, reply⟩).length fault) := by
  generalize hresult : Except.error failure = result at h
  cases h with
  | late =>
    cases hresult
    exact ⟨hmore, .inl ⟨rfl, rfl⟩⟩
  | failed spent why =>
    cases hresult
    refine ⟨hmore, .inr ?_⟩
    cases why with
    | notFound id => exact .inl ⟨spent, id, rfl, rfl⟩
    | refused why => exact .inr ⟨_, rfl⟩
    | http why => exact .inr ⟨_, rfl⟩
    | other text => exact .inr ⟨_, rfl⟩
  | empty spent w hempty =>
    cases hresult
    rw [accepting_of_not_acceptable fun h => h.1 hempty]
    exact ⟨hmore, .inr (.inr ⟨_, rfl⟩)⟩
  | tooLong spent w hlong =>
    cases hresult
    rw [accepting_of_not_acceptable fun h => Nat.not_lt.mpr h.2.1 hlong]
    exact ⟨hmore, .inr (.inr ⟨_, rfl⟩)⟩
  | overrun spent w hover =>
    cases hresult
    rw [accepting_of_not_acceptable fun h => Nat.not_lt.mpr h.2.2 hover]
    exact ⟨hmore, .inr (.inr ⟨_, rfl⟩)⟩
  | last => cases hresult
  | early spent w hacceptable _ hshort =>
    -- the last window was taken, and still something is missing
    cases hresult
    rw [accepting_of_acceptable hacceptable, List.length_append]
    exact ⟨hshort, .inr (.inr ⟨_, rfl⟩)⟩

namespace Transcript

variable {received : Bytes} {log : List Inquiry} {result : Except Failure Bytes}

/-! ## What is asked

The offsets follow from the replies: each request starts where the accepted bytes end. They go up, so a
fetch makes no more calls than bytes are declared. -/

/-- A fetch makes no more calls than bytes are missing: every call but the last brings one at least. -/
theorem length_add_le (h : Transcript t ref total received log result) :
    received.length + log.length ≤ total := by
  induction h with
  | whole received htotal =>
    rw [List.length_nil]
    omega
  | ends received patience reply result hmore _ =>
    rw [List.length_singleton]
    omega
  | goesOn received patience spent w log result h _ _ ih =>
    have hpos : 0 < w.data.length := List.length_pos_iff.mpr h.1
    rw [List.length_append] at ih
    rw [List.length_cons]
    omega

/-- Every call asks for a whole chunk from where the accepted bytes end. -/
theorem request_eq (h : Transcript t ref total received log result) :
    ∀ (i : Nat) (q : Inquiry), log[i]? = some q →
      q.request = ⟨ref, (t.accepted total received (log.take i)).length, t.chunkSize⟩ := by
  -- the first call asks from where the bytes received so far end, and an acceptable window moves
  -- that on
  induction h with
  | whole received _ => nofun
  | ends received patience reply result _ _ =>
    intro i q hq
    cases i with
    | zero =>
      cases hq
      rfl
    | succ i => cases hq
  | goesOn received patience spent w log result h _ _ ih =>
    intro i q hq
    cases i with
    | zero =>
      cases hq
      rfl
    | succ i =>
      rw [List.take_succ_cons, accepted_cons, accepting_of_acceptable h]
      exact ih i q hq

/-- Every call asks for bytes that are declared and still missing. -/
theorem offset_bounds (h : Transcript t ref total received log result) :
    ∀ q ∈ log, received.length ≤ q.request.offset ∧ q.request.offset < total := by
  induction h with
  | whole received _ => nofun
  | ends received patience reply result hmore _ =>
    intro q hq
    rw [List.mem_singleton] at hq
    subst hq
    exact ⟨Nat.le_refl _, hmore⟩
  | goesOn received patience spent w log result h _ _ ih =>
    have hpos : 0 < w.data.length := List.length_pos_iff.mpr h.1
    have hfits := h.2.2
    intro q hq
    rcases List.mem_cons.mp hq with rfl | hrest
    · exact ⟨Nat.le_refl _, show received.length < total by omega⟩
    · obtain ⟨hle, hlt⟩ := ih q hrest
      rw [List.length_append] at hle
      exact ⟨by omega, hlt⟩

/-- Requests go forward through the payload, and none is made twice. -/
theorem pairwise_offset (h : Transcript t ref total received log result) :
    log.Pairwise fun q q' => q.request.offset < q'.request.offset := by
  induction h with
  | whole received _ => exact .nil
  | ends received patience reply result _ _ => exact List.pairwise_singleton ..
  | goesOn received patience spent w log result h _ hrest ih =>
    have hpos : 0 < w.data.length := List.length_pos_iff.mpr h.1
    refine List.pairwise_cons.mpr ⟨fun q hq => ?_, ih⟩
    -- the next call starts after a window that was not empty
    have hle := (hrest.offset_bounds q hq).1
    rw [List.length_append] at hle
    show received.length < q.request.offset
    omega

/-- Whatever is followed by another call was answered with an acceptable window that is not the last. -/
theorem goesOn_of_lt (h : Transcript t ref total received log result) :
    ∀ (i : Nat) (q : Inquiry), log[i]? = some q → i + 1 < log.length →
      ∃ spent w, q.reply = some (spent, .ok w) ∧ t.Acceptable total q.request.offset w ∧
        w.isLast = false := by
  induction h with
  | whole received _ => nofun
  | ends received patience reply result _ _ =>
    intro i q _ hi
    rw [List.length_singleton] at hi
    omega
  | goesOn received patience spent w log result h hlast _ ih =>
    intro i q hq hi
    cases i with
    | zero =>
      cases hq
      exact ⟨spent, w, rfl, h, hlast⟩
    | succ i =>
      rw [List.length_cons] at hi
      exact ih i q hq (by omega)

/-- Asking stops where all declared bytes have been accepted, and else at a reply that ends the fetch. -/
theorem stops (h : Transcript t ref total received log result) :
    (t.accepted total received log).length = total ∨
      ∃ before q, log = before ++ [q] ∧
        Ends t total (t.accepted total received before) q.reply result := by
  induction h with
  | whole received htotal => exact .inl htotal
  | ends received patience reply result _ hends => exact .inr ⟨[], _, rfl, hends⟩
  | goesOn received patience spent w log result h _ _ ih =>
    -- what the rest of the calls starts from is what this window was added to
    rw [accepted_cons, accepting_of_acceptable h]
    rcases ih with hall | ⟨before, q, rfl, hends⟩
    · exact .inl hall
    · refine .inr ⟨_ :: before, q, rfl, ?_⟩
      rw [accepted_cons, accepting_of_acceptable h]
      exact hends

/-! ## What the result says -/

/-- A fetch that succeeds gives the data of all replies, one after the other, and all of it was acceptable.
-/
theorem of_ok {bytes : Bytes} (h : Transcript t ref total received log (.ok bytes)) :
    bytes.length = total ∧ bytes = t.accepted total received log ∧
      bytes = received ++ log.flatMap Inquiry.data ∧
      ∀ q ∈ log, ∃ spent w, q.reply = some (spent, .ok w) ∧
        t.Acceptable total q.request.offset w := by
  generalize hresult : Except.ok bytes = result at h
  induction h with
  | whole received htotal =>
    cases hresult
    exact ⟨htotal, rfl, (List.append_nil _).symm, nofun⟩
  -- of the ways to end only one is well, and there the window completes the bytes
  | ends received patience reply result _ hends =>
    subst hresult
    obtain ⟨spent, w, rfl, hacceptable, heq, htotal⟩ := hends.of_ok
    refine ⟨htotal, ?_, ?_, fun q hq => ?_⟩
    · rw [heq, accepted_cons, accepting_of_acceptable hacceptable]
      rfl
    · rw [heq, List.flatMap_singleton]
      rfl
    · rw [List.mem_singleton] at hq
      subst hq
      exact ⟨spent, w, rfl, hacceptable⟩
  | goesOn received patience spent w log result h _ _ ih =>
    obtain ⟨htotal, haccepted, heq, hall⟩ := ih hresult
    refine ⟨htotal, ?_, ?_, fun q hq => ?_⟩
    · rw [accepted_cons, accepting_of_acceptable h]
      exact haccepted
    · rw [heq, List.flatMap_cons, ← List.append_assoc]
      rfl
    · rcases List.mem_cons.mp hq with rfl | hrest
      · exact ⟨spent, w, rfl, h⟩
      · exact hall q hrest

/-- A fetch that fails lacks declared bytes, and its failure is what the replies say. -/
theorem of_error {failure : Failure} (h : Transcript t ref total received log (.error failure)) :
    (t.accepted total received log).length < total ∧
      ((failure = .timeout t.deadline ∧ ∃ q ∈ log, q.reply = none) ∨
        (∃ id, failure = .notFound id ∧
          ∃ q ∈ log, ∃ spent, q.reply = some (spent, .error (.notFound id))) ∨
        ∃ fault, failure = .transport (t.accepted total received log).length fault) := by
  generalize hresult : Except.error failure = result at h
  induction h with
  | whole received _ => cases hresult
  | ends received patience reply result hmore hends =>
    subst hresult
    obtain ⟨hlt, hcases⟩ := hends.of_error hmore ⟨ref, received.length, t.chunkSize⟩ patience
    refine ⟨hlt, ?_⟩
    rcases hcases with ⟨rfl, rfl⟩ | ⟨spent, id, rfl, rfl⟩ | htransport
    · exact .inl ⟨rfl, _, List.mem_singleton.mpr rfl, rfl⟩
    · exact .inr (.inl ⟨id, rfl, _, List.mem_singleton.mpr rfl, spent, rfl⟩)
    · exact .inr (.inr htransport)
  -- the window was fine, so the failure is that of a later reply
  | goesOn received patience spent w log result h _ _ ih =>
    rw [accepted_cons, accepting_of_acceptable h]
    obtain ⟨hlt, hcases⟩ := ih hresult
    refine ⟨hlt, ?_⟩
    rcases hcases with ⟨heq, q, hq, hlate⟩ | ⟨id, heq, q, hq, hunknown⟩ | htransport
    · exact .inl ⟨heq, q, List.mem_cons_of_mem _ hq, hlate⟩
    · exact .inr (.inl ⟨id, heq, q, List.mem_cons_of_mem _ hq, hunknown⟩)
    · exact .inr (.inr htransport)

/-- A call that is not answered in time, or refused, is the last one and decides the result. -/
theorem eq_error_of_mem (h : Transcript t ref total received log result) :
    ∀ q ∈ log, (q.reply = none → result = .error (.timeout t.deadline)) ∧
      ∀ spent why, q.reply = some (spent, .error why) →
        result = .error (why.atOffset q.request.offset) := by
  induction h with
  | whole received _ => nofun
  | ends received patience reply result _ hends =>
    intro q hq
    rw [List.mem_singleton] at hq
    subst hq
    refine ⟨fun hlate => ?_, fun spent why hfailed => ?_⟩
    · simp only at hlate
      subst hlate
      cases hends
      rfl
    · simp only at hfailed
      subst hfailed
      cases hends
      rfl
  | goesOn received patience spent w log result _ _ _ ih =>
    intro q hq
    rcases List.mem_cons.mp hq with rfl | hrest
    · exact ⟨nofun, nofun⟩
    · exact ih q hrest

end Transcript

/-! ## The whole fetch -/

/-- `Reassembles t ref total log result`: what a fetch promises whoever answers it. -/
structure Reassembles (t : Transfer) (ref : String) (total : Nat) (log : List Inquiry)
    (result : Except Failure Bytes) : Prop where
  calls_le : log.length ≤ total
  /-- Every call asks for a whole chunk from where the bytes accepted so far end. -/
  asks : ∀ (i : Nat) (q : Inquiry), log[i]? = some q →
    q.request = ⟨ref, (t.accepted total [] (log.take i)).length, t.chunkSize⟩
  increasing : log.Pairwise fun q q' => q.request.offset < q'.request.offset
  below : ∀ q ∈ log, q.request.offset < total
  /-- Only an acceptable window that is not the last is followed by another call. -/
  goesOn : ∀ (i : Nat) (q : Inquiry), log[i]? = some q → i + 1 < log.length →
    ∃ spent w, q.reply = some (spent, .ok w) ∧ t.Acceptable total q.request.offset w ∧
      w.isLast = false
  /-- Asking stops where all declared bytes were accepted, or else at a reply that is a cause to stop: it is
  missing or a failure, its window is not acceptable, or its window is the last. -/
  stops : (t.accepted total [] log).length = total ∨
    ∃ before q, log = before ++ [q] ∧ Ends t total (t.accepted total [] before) q.reply result
  /-- The fetch succeeds exactly if all declared bytes were accepted, and gives them. -/
  ok_iff : ∀ bytes, result = .ok bytes ↔
    bytes = t.accepted total [] log ∧ (t.accepted total [] log).length = total
  /-- Then every reply was an acceptable window, and nothing in them was left out. -/
  concat : ∀ bytes, result = .ok bytes → bytes = log.flatMap Inquiry.data ∧
    ∀ q ∈ log, ∃ spent w, q.reply = some (spent, .ok w) ∧ t.Acceptable total q.request.offset w
  /-- A failure has its cause in the replies; a transport fault has the number of accepted bytes. -/
  failure : ∀ failure, result = .error failure →
    (failure = .timeout t.deadline ∧ ∃ q ∈ log, q.reply = none) ∨
      (∃ id, failure = .notFound id ∧
        ∃ q ∈ log, ∃ spent, q.reply = some (spent, .error (.notFound id))) ∨
      ∃ fault, failure = .transport (t.accepted total [] log).length fault
  /-- A call that is not answered in time, or fails, decides the result. -/
  callFailed : ∀ q ∈ log, (q.reply = none → result = .error (.timeout t.deadline)) ∧
    ∀ spent why, q.reply = some (spent, .error why) →
      result = .error (why.atOffset q.request.offset)

/-- **Fetching from anybody.** In every world, a fetch makes calls for windows only, and reassembles what
it is given or says how far it got. It stops for no other reason than that it has all of the declared
bytes, or a reply that it cannot go on from. -/
theorem fetch_reassembles (t : Transfer) (ref : String) (total : Nat) {σ : Type}
    (world : Answering σ) (s : σ) :
    ∃ log : List Inquiry,
      (t.fetch ref total).exchanges world s = log.map Inquiry.exchange ∧
        Reassembles t ref total log ((t.fetch ref total).run world s).1 := by
  obtain ⟨log, hlog, h⟩ := transcript_fetch t ref total world s
  refine ⟨log, hlog, ?_⟩
  generalize ((t.fetch ref total).run world s).1 = result at h
  have hcalls := h.length_add_le
  rw [List.length_nil, Nat.zero_add] at hcalls
  refine ⟨hcalls, h.request_eq, h.pairwise_offset, fun q hq => (h.offset_bounds q hq).2,
    h.goesOn_of_lt, h.stops, fun bytes => ⟨?_, ?_⟩, ?_, ?_, h.eq_error_of_mem⟩
  · rintro rfl
    obtain ⟨htotal, heq, -⟩ := h.of_ok
    exact ⟨heq, heq ▸ htotal⟩
  -- a fetch that has accepted all bytes cannot have failed, since a failure lacks some
  · rintro ⟨rfl, htotal⟩
    cases result with
    | ok bytes => rw [h.of_ok.2.1]
    | error failure => exact absurd htotal (Nat.ne_of_lt h.of_error.1)
  · rintro bytes rfl
    obtain ⟨-, -, hconcat, hall⟩ := h.of_ok
    exact ⟨hconcat, hall⟩
  · rintro failure rfl
    exact h.of_error.2

end Transfer

end Stowage.Chunk
