import Stowage.Proofs.Backend.Marker
import Stowage.Proofs.Chunk.Fetch
import Stowage.Proofs.Chunk.Storing
import Stowage.World
/-!
# Stowage — the remote round trip

A message that is offloaded to a chunk host and then resolved comes back. The host is reached in
memory over a link that drops nothing and is fast enough (`Undisturbed`); then what is stored for
each candidate is exactly its bytes (`run_offload_candidate`), each of them is served again, and
`resolve_offload` puts the two together for whole messages of every kind.
-/

namespace Stowage

open Chunk

namespace World

/-! ## Calls that reach the host

In a direct world every call is answered in time by the host, whatever is stored. What a call does is
then what the host does, and a line of the log. -/

/-- Every call over the link reaches the host in memory. -/
structure Direct (w : World) : Prop where
  endpoint : w.link.endpoint = none
  script : ∀ number, w.link.act? number = none

variable {w : World}

/-- A store call in time is answered by the host. -/
theorem answer_store (hdirect : w.Direct) (r : StoreRequest) {patience : Nat}
    (htime : w.link.delay ≤ patience) :
    answer (.store r patience) w =
      (some (w.link.delay, (w.host.answerStore r).1),
        { w with
          made := w.made + 1
          log := .store r.ref r.offset r.data.length r.total r.isLast :: w.log
          host := (w.host.answerStore r).2 }) := by
  rw [answer, overLink, hdirect.script w.made]
  simp only
  rw [if_neg (by omega), hostStore]
  simp only [hdirect.endpoint]
  rfl

/-- A call for a window in time is answered by the host. -/
theorem answer_get (hdirect : w.Direct) (r : GetRequest) {patience : Nat}
    (htime : w.link.delay ≤ patience) :
    answer (.get r patience) w =
      (some (w.link.delay, w.host.get r),
        { w with
          made := w.made + 1
          log := .get r.ref r.offset r.length :: w.log }) := by
  rw [answer, overLink, hdirect.script w.made]
  simp only
  rw [if_neg (by omega), hostGet]
  simp only [hdirect.endpoint]
  rfl

/-- The references of the next draws. -/
def Dice.refs : Nat → Dice → List String
  | 0, _ => []
  | n + 1, dice => (Uuid.ofRandom dice.draw.1).text :: refs n dice.draw.2

/-- What storing under a reference leaves as it was. -/
structure StoredUnder (ref : String) (w w' : World) : Prop where
  dice : w'.dice = w.dice
  link : w'.link = w.link
  maximum : w'.host.maximum = w.host.maximum
  others : ∀ other, other ≠ ref → w'.host.find? other = w.host.find? other

/-- Where no call is made, everything is left as it was. -/
theorem StoredUnder.refl (ref : String) (w : World) : StoredUnder ref w w :=
  ⟨rfl, rfl, rfl, fun _ _ => rfl⟩

/-- What one store call leaves as it was, and the next one too, is as it was before both. -/
theorem StoredUnder.trans {ref : String} {w w' w'' : World} (h : StoredUnder ref w w')
    (h' : StoredUnder ref w' w'') : StoredUnder ref w w'' :=
  ⟨h'.dice.trans h.dice, h'.link.trans h.link, h'.maximum.trans h.maximum,
    fun other hne => (h'.others other hne).trans (h.others other hne)⟩

/-- Whether calls reach the host depends on the link alone. -/
theorem Direct.of_link {w' : World} (h : w.Direct) (hlink : w'.link = w.link) : w'.Direct :=
  ⟨by rw [hlink]; exact h.endpoint, fun number => by rw [hlink]; exact h.script number⟩

end World

/-! ## Storing a payload

The calls of a store go to one reference. The other payloads stay as they are, which is what the
induction over the candidates needs. -/

/-- Store calls for a reference reach the host, and leave everything else as it was. -/
theorem World.takes_answer {w : World} (hdirect : w.Direct) (ref : String) :
    Takes World.answer World.host (fun r => r.ref = ref) w.link.delay (World.StoredUnder ref w) := by
  intro w₁ hstored r patience href htime hok
  have hcall := World.answer_store (hdirect.of_link hstored.link) r
    (show w₁.link.delay ≤ patience by rw [hstored.link]; exact htime)
  rw [hok, hstored.link] at hcall
  refine ⟨_, hcall, rfl, hstored.trans ⟨rfl, hstored.link.symm, Store.maximum_answerStore .., ?_⟩⟩
  intro other hne
  exact w₁.host.find?_answerStore_of_ne r (href ▸ hne)

/-- A payload under a fresh reference is stored in full. -/
theorem Chunk.Transfer.run_store (t : Transfer) {ref : String} {data : Bytes} {w : World}
    (hdirect : w.Direct) (hfresh : w.host.find? ref = none) (hne : data ≠ [])
    (hmaximum : data.length ≤ w.host.maximum) (hlimit : data.length < offsetLimit)
    (htime : t.calls data.length * w.link.delay ≤ t.deadline.nanoseconds) :
    ∃ w', World.run (t.store ref data) w = (.ok (), w') ∧
      w'.host.find? ref = some ⟨data.length, data⟩ ∧ World.StoredUnder ref w w' := by
  obtain ⟨w', hrun, hholds, -, hstored⟩ := t.run_store_of_takes (World.takes_answer hdirect ref)
    (.refl ref w) (fun _ _ => rfl) hfresh hmaximum hlimit htime
  exact ⟨w', hrun, hholds.eq_some hne, hstored⟩

namespace Remote

/-! ## Offloading

As for records, the state of the induction is `Ready`: the references that are left to draw are fresh.
One step (`offloads`) uses the first of them. -/

/-- A world that is ready to store candidates: the calls reach the host in time, the candidates are within
its maximum, and the next references are fresh. -/
structure Ready (t : Transfer) (delay maximum : Nat) (candidates : List Candidate) (w : World) :
    Prop where
  direct : w.Direct
  delay_eq : w.link.delay = delay
  maximum_eq : w.host.maximum = maximum
  maximum_lt : maximum < offsetLimit
  nonempty : ∀ c ∈ candidates, c.bytes ≠ []
  fits : ∀ c ∈ candidates, c.bytes.length ≤ maximum
  inTime : ∀ c ∈ candidates, t.calls c.bytes.length * delay ≤ t.deadline.nanoseconds
  distinct : (w.dice.refs candidates.length).Nodup
  fresh : ∀ ref ∈ w.dice.refs candidates.length, w.host.find? ref = none

/-- The host holds the bytes of a candidate under a reference. -/
def Stands (c : Candidate) (ref : String) (w : World) : Prop :=
  ref ≠ "" ∧ w.host.find? ref = some ⟨c.bytes.length, c.bytes⟩

/-- **One candidate.** It is stored under the next reference, and what the host held before is still
there, since that reference was fresh. -/
theorem offloads (t : Transfer) (threshold delay maximum : Nat) :
    Message.Offloads (backend t threshold) World.answer markerOf Stands
      (Ready t delay maximum) := by
  intro c rest w hready
  obtain ⟨hdirect, hdelay, hmaximum, hlimit, hnonempty, hfits, htime, hdistinct, hfresh⟩ := hready
  set ref := (Uuid.ofRandom w.dice.draw.1).text with href
  have hrefs : w.dice.refs (c :: rest).length = ref :: w.dice.draw.2.refs rest.length := rfl
  rw [hrefs] at hdistinct hfresh
  rw [List.nodup_cons] at hdistinct
  have hc := @List.mem_cons_self _ c rest
  have hnew : w.host.find? ref = none := hfresh ref (List.mem_cons_self ..)
  set w₁ : World := { w with dice := w.dice.draw.2 }
  have hfits₁ : c.bytes.length ≤ w₁.host.maximum := by
    show c.bytes.length ≤ w.host.maximum
    rw [hmaximum]
    exact hfits c hc
  have htime₁ : t.calls c.bytes.length * w₁.link.delay ≤ t.deadline.nanoseconds := by
    show t.calls c.bytes.length * w.link.delay ≤ t.deadline.nanoseconds
    rw [hdelay]
    exact htime c hc
  obtain ⟨w', hrun, hholds, hstored⟩ : ∃ w', World.run (t.store ref c.bytes) w₁ = (.ok (), w') ∧
      w'.host.find? ref = some ⟨c.bytes.length, c.bytes⟩ ∧ World.StoredUnder ref w₁ w' :=
    t.run_store (hdirect.of_link rfl) hnew (hnonempty c hc) hfits₁
      (Nat.lt_of_le_of_lt (hfits c hc) hlimit) htime₁
  refine ⟨ref, w', ?_, ?_, ⟨Uuid.text_ne_empty _, hholds⟩, ?_⟩
  · show (Program.call .draw _).run World.answer w = _
    rw [Program.run_call]
    exact Program.run_bind_of_eq hrun
  · refine ⟨hdirect.of_link hstored.link, by rw [hstored.link]; exact hdelay,
      by rw [hstored.maximum]; exact hmaximum, hlimit,
      fun d hd => hnonempty d (List.mem_cons_of_mem _ hd),
      fun d hd => hfits d (List.mem_cons_of_mem _ hd),
      fun d hd => htime d (List.mem_cons_of_mem _ hd), ?_, fun other hother => ?_⟩
    · rw [hstored.dice]
      exact hdistinct.2
    · rw [hstored.dice] at hother
      rw [hstored.others other fun heq => hdistinct.1 (heq ▸ hother)]
      exact hfresh other (List.mem_cons_of_mem _ hother)
  · intro d y ⟨hy, hstands⟩
    refine ⟨hy, ?_⟩
    -- what stands already is not under the new reference, which was free
    rw [hstored.others y fun heq => ?_]
    · exact hstands
    · rw [heq] at hstands
      exact absurd (hnew.symm.trans hstands) (by simp)

/-! ## Resolving

Fetching changes nothing on the host (`Keeps`), so the payloads can be fetched in any order, and each
comes back as a whole. -/

/-- A host that is reached and keeps what it held in a world. -/
def Keeps (start : World) (w : World) : Prop :=
  w.link = start.link ∧ w.host = start.host

/-- A payload that the host holds is served. -/
theorem serves {start : World} (hdirect : start.Direct) {ref : String} {data : Bytes}
    (h : start.host.find? ref = some ⟨data.length, data⟩) :
    Serves World.answer ref data start.link.delay (Keeps start) := by
  intro w ⟨hlink, hhost⟩ offset length patience hoffset hpatience
  have hcall := World.answer_get (hdirect.of_link hlink) ⟨ref, offset, length⟩
    (show w.link.delay ≤ patience by rw [hlink]; exact hpatience)
  rw [hhost, Store.get_of_find? h (Nat.le_of_lt hoffset), hlink] at hcall
  exact ⟨_, hcall, rfl, rfl⟩

/-- What was stored for a candidate is restored. -/
theorem restores (t : Transfer) (threshold : Nat) {start : World} (hdirect : start.Direct)
    {c : Candidate} {ref : String} (hstands : Stands c ref start)
    (hsize : c.bytes.length < Json.wordLimit)
    (htime : t.calls c.bytes.length * start.link.delay ≤ t.deadline.nanoseconds) :
    Message.Restores (backend t threshold) World.answer (Keeps start) c (markerOf c ref) none :=
  ⟨⟨ref, c.bytes.length, c.fieldPath⟩, recognize_make _ _ hstands.1 hsize,
    fun _ hw => t.run_fetch (serves hdirect hstands.2) htime hw⟩

/-! ## The round trip

Here the candidates may be fields or a whole message, and the thresholds and chunk sizes of the two
nodes may differ. -/

/-- A world in which a message can go to the host and come back: every call reaches the host, and there is
time for the calls of every candidate; no candidate is above the maximum of the host, which is a
64-bit number; and the references to be drawn are distinct and not in use. -/
structure Undisturbed (t t' : Transfer) (candidates : List Candidate) (w : World) : Prop where
  direct : w.Direct
  maximum_lt : w.host.maximum < offsetLimit
  fits : ∀ c ∈ candidates, c.bytes.length ≤ w.host.maximum
  storeInTime : ∀ c ∈ candidates, t.calls c.bytes.length * w.link.delay ≤ t.deadline.nanoseconds
  fetchInTime : ∀ c ∈ candidates,
    t'.calls c.bytes.length * w.link.delay ≤ t'.deadline.nanoseconds
  distinct : (w.dice.refs candidates.length).Nodup
  fresh : ∀ ref ∈ w.dice.refs candidates.length, w.host.find? ref = none

/-- A message that is no object comes back: its marker stands for the whole of it, and nothing else
is replaced. -/
theorem run_resolve_whole (t : Transfer) (threshold : Nat) (gate : Gate) {message : Bytes}
    {start : World} (hdirect : start.Direct) {refOf : String → String}
    (hother : ∀ fields, Json.read? message ≠ some (.object fields))
    (hplain : ∀ v, Json.read? message = some v → recognize v = .ok none)
    (hstands : ∀ c ∈ gate.candidates message, Stands c (refOf c.fieldPath) start)
    (hsize : ∀ c ∈ gate.candidates message, c.bytes.length < Json.wordLimit)
    (htime : ∀ c ∈ gate.candidates message,
      t.calls c.bytes.length * start.link.delay ≤ t.deadline.nanoseconds) :
    ∃ w, World.run (Message.resolve (backend t threshold)
      (gate.rewritten (fun c => markerOf c (refOf c.fieldPath)) message)) start =
        (.ok message, w) := by
  rw [gate.candidates_other hother] at hstands hsize htime
  rw [gate.rewritten_other _ hother]
  by_cases hexceeds : gate.exceeds message.length
  · rw [if_pos hexceeds] at hstands hsize htime ⊢
    set c : Candidate := ⟨"", message, Json.read? message⟩
    have hc : c ∈ [c] := List.mem_singleton.mpr rfl
    have hsize' : c.bytes.length < Json.wordLimit := hsize c hc
    -- the whole message has become the marker
    have hread : Json.read? (markerOf c (refOf "")).print = some (markerOf c (refOf "")) :=
      Json.read?_print ((Marker.nested_toJson _).mono (by decide)) (Marker.isWhole_toJson hsize')
    obtain ⟨w, hfetch, -⟩ := t.run_fetch (serves hdirect (hstands c hc).2) (htime c hc)
      (show Keeps start start from ⟨rfl, rfl⟩)
    have hrecognize : (backend t threshold).recognize (markerOf c (refOf "")) =
        .ok (some ⟨refOf "", c.bytes.length, ""⟩) :=
      recognize_make c.bytes.length "" (hstands c hc).1 hsize'
    refine ⟨w, ?_⟩
    rw [Message.resolve, hread]
    simp only
    rw [hrecognize]
    exact hfetch
  · rw [if_neg hexceeds]
    refine ⟨start, ?_⟩
    unfold Message.resolve
    cases hread : Json.read? message with
    | none => rfl
    | some value =>
      have hrecognize : (backend t threshold).recognize value = .ok none := hplain value hread
      simp only
      rw [hrecognize]
      cases value with
      | object fields => exact absurd hread (hother fields)
      | null => rfl
      | bool b => rfl
      | number n => rfl
      | string s => rfl
      | array items => rfl

/-- **The remote round trip.** Offloading a message succeeds and puts a marker in the place of every
part over the threshold. Resolving what it was turned into gives it back: as the compact text of the
object if fields of an object were replaced, and byte for byte in all other cases. The chunk sizes
and the deadlines of the two transfers may differ. -/
theorem resolve_offload (t t' : Transfer) (threshold threshold' : Nat) (message : Bytes) (w : World)
    (hcalm : Undisturbed t t' ((Gate.mk threshold).candidates message) w)
    (hwhole : ∀ v, Json.read? message = some v → Json.IsWhole v)
    (hplain : ∀ v, Json.read? message = some v → recognize v = .ok none)
    (hsmall : ∀ fields, Json.read? message = some (.object fields) → ∀ field ∈ fields,
      field.2.print.length ≤ threshold → recognize field.2 = .ok none) :
    ∃ (refOf : String → String) (message' : Bytes) (w' w'' : World),
      message' =
        (Gate.mk threshold).rewritten (fun c => markerOf c (refOf c.fieldPath)) message ∧
      World.run (Message.offload (backend t threshold) message) w = (.ok message', w') ∧
      World.run (Message.resolve (backend t' threshold') message') w' =
        (.ok ((Gate.mk threshold).canonical message), w'') := by
  set gate := Gate.mk threshold with hgate
  have hready : Ready t w.link.delay w.host.maximum (gate.candidates message) w :=
    ⟨hcalm.direct, rfl, rfl, hcalm.maximum_lt, fun c hc => Gate.bytes_ne_nil_of_mem_candidates hc,
      hcalm.fits, hcalm.storeInTime, hcalm.distinct, hcalm.fresh⟩
  obtain ⟨refOf, w', hoffload, hready', hstands⟩ :=
    Message.run_offload (offloads t threshold w.link.delay w.host.maximum) hready
  -- the sizes in the markers fit, and there is time to fetch each payload
  have hsize : ∀ c ∈ gate.candidates message, c.bytes.length < Json.wordLimit :=
    fun c hc => Nat.lt_of_le_of_lt (hcalm.fits c hc) hcalm.maximum_lt
  have htime : ∀ c ∈ gate.candidates message,
      t'.calls c.bytes.length * w'.link.delay ≤ t'.deadline.nanoseconds := by
    rw [hready'.delay_eq]
    exact hcalm.fetchInTime
  by_cases hobject : ∃ fields, Json.read? message = some (.object fields)
  · obtain ⟨fields, hread⟩ := hobject
    obtain ⟨w'', hresolve, -⟩ : ∃ w'',
        World.run (Message.resolve (backend t' threshold')
            (gate.rewritten (fun c => markerOf c (refOf c.fieldPath)) message)) w' =
          (Message.orFault (gate.canonical message)
            ((gate.candidates message).findSome? fun _ => none), w'') ∧ Keeps w' w'' :=
      Message.run_resolve_object hread (hwhole _ hread)
      (fun c hc => ⟨(Marker.nested_toJson _).mono (by decide), Marker.isWhole_toJson (hsize c hc)⟩)
      (recognize_replaced (fun c => ⟨_, rfl⟩) (hplain _ hread))
      (fun field hfield hselects => hsmall fields hread field hfield
        (Nat.not_lt.mp (of_decide_eq_false hselects)))
      (fun c hc => restores t' threshold' hready'.direct (hstands c hc) (hsize c hc) (htime c hc))
      (show Keeps w' w' from ⟨rfl, rfl⟩)
    refine ⟨refOf, _, w', w'', rfl, hoffload, ?_⟩
    rw [List.findSome?_eq_none_iff.mpr fun _ _ => rfl] at hresolve
    exact hresolve
  -- what is no object went as a whole, and comes back in one fetch
  · have hother : ∀ fields, Json.read? message ≠ some (.object fields) :=
      fun fields h => hobject ⟨fields, h⟩
    obtain ⟨w'', hresolve⟩ := run_resolve_whole t' threshold' gate hready'.direct hother hplain
      hstands hsize htime
    refine ⟨refOf, _, w', w'', rfl, hoffload, hresolve.trans ?_⟩
    rw [Gate.canonical]
    split
    · next fields heq => exact absurd heq (hother fields)
    · rfl

/-! ## One message that goes and comes back

A member that is itself shaped like a marker is moved like any other, and comes back as it was: what is
fetched is not looked at again. The empty key is a key as well. -/

/-- An object with a member under the empty key that is shaped like a marker, and a small number. -/
def lookalike : Json.Members :=
  [("", .object [(Marker.chunkedKey, .bool true)]), ("n", .number (.int 7))]

/-- A world of which nothing has been used, with a host for payloads up to a size. -/
def unused (maximum : Nat) : World :=
  ⟨⟨[], 0⟩, .clear, 0, [], .empty maximum, .nobody, .fresh [], []⟩

/-- In a world of which nothing has been used there is room for any one candidate, and time, since calls take
none. -/
theorem undisturbed_unused (t t' : Transfer) {c : Candidate} {maximum : Nat}
    (hmaximum : maximum < offsetLimit) (hsize : c.bytes.length ≤ maximum) :
    Undisturbed t t' [c] (unused maximum) := by
  have hfits : ∀ d ∈ [c], d.bytes.length ≤ maximum := by
    intro d hd
    rwa [List.mem_singleton.mp hd]
  have hinTime : ∀ t : Transfer, ∀ d ∈ [c],
      t.calls d.bytes.length * (unused maximum).link.delay ≤ t.deadline.nanoseconds := by
    intro t d _
    show t.calls d.bytes.length * 0 ≤ _
    rw [Nat.mul_zero]
    exact Nat.zero_le _
  have hdistinct : ((unused maximum).dice.refs 1).Nodup := by
    simp [World.Dice.refs]
  exact ⟨⟨rfl, fun _ => rfl⟩, hmaximum, hfits, hinTime t, hinTime t', hdistinct, fun _ _ => rfl⟩

/-- The message is flat enough to be read. -/
theorem nested_lookalike : Json.Nested Json.maxDepth (.object lookalike) := by
  refine .object _ _ (by decide) fun m hm => ?_
  simp only [lookalike, List.mem_cons, List.not_mem_nil, or_false] at hm
  rcases hm with rfl | rfl
  · refine .object _ _ (by simp) fun m hm => ?_
    rw [List.mem_singleton] at hm
    subst hm
    exact .bool _ true
  · exact .number _ _

/-- All of its numbers are natural. -/
theorem isWhole_lookalike : Json.IsWhole (.object lookalike) := by
  refine .object _ fun m hm => ?_
  simp only [lookalike, List.mem_cons, List.not_mem_nil, or_false] at hm
  rcases hm with rfl | rfl
  · refine .object _ fun m hm => ?_
    rw [List.mem_singleton] at hm
    subst hm
    exact .bool true
  · exact .number _ (.int 7 (by decide) (by decide))

/-- The member that is shaped like a marker is over the threshold, so it survives. -/
theorem resolve_offload_lookalike :
    ∃ (refOf : String → String) (message' : Bytes) (w' w'' : World),
      message' = (Gate.mk 4).rewritten (fun c => markerOf c (refOf c.fieldPath))
        (Json.object lookalike).print ∧
      World.run (Message.offload (backend (.make 3 ⟨10⟩) 4) (Json.object lookalike).print)
          (unused 100) = (.ok message', w') ∧
      World.run (Message.resolve (backend (.make 8 ⟨10⟩) 4) message') w' =
        (.ok ((Gate.mk 4).canonical (Json.object lookalike).print), w'') := by
  have hread := Json.read?_print nested_lookalike isWhole_lookalike
  have hcandidates : (Gate.mk 4).candidates (Json.object lookalike).print =
      [Gate.candidate ("", .object [(Marker.chunkedKey, .bool true)])] := by
    rw [Gate.candidates_object _ hread, lookalike, List.filter_cons_of_pos (by decide),
      List.filter_cons_of_neg (by decide), List.filter_nil]
    rfl
  refine resolve_offload (.make 3 ⟨10⟩) (.make 8 ⟨10⟩) 4 4 _ (unused 100) ?_ ?_ ?_ ?_
  · rw [hcandidates]
    exact undisturbed_unused _ _ (by decide) (by decide)
  · intro v hv
    rw [hread] at hv
    cases hv
    exact isWhole_lookalike
  · intro v hv
    rw [hread] at hv
    cases hv
    rw [recognize_eq_none_iff]
    decide
  -- the member in the shape of a marker is over the threshold, so nothing is asked of it
  · intro fields hv field hfield hle
    rw [hread] at hv
    cases hv
    simp only [lookalike, List.mem_cons, List.not_mem_nil, or_false] at hfield
    rcases hfield with rfl | rfl
    · exact absurd hle (by decide)
    · rfl

end Remote

end Stowage
