import Mathlib.Data.List.MinMax
import Mathlib.Data.Nat.Digits.Defs
import Stowage.Proofs.Backend.Resolvable
import Stowage.Proofs.Chunk.BodyLimit
import Stowage.Proofs.Disk.Attempt
import Stowage.Proofs.Ident.ZBase32
/-!
# Stowage — offloading a second time

A marker is short: its text is at most 131 bytes longer than that of the key it names
(`length_print_markerOf_le`), since a drawn reference has 36 characters and a size at most twenty digits.
So with a threshold that leaves room for markers, nothing that offloading puts into a message is a
candidate again, and neither is what it left there (`Gate.candidates_rewritten`). Offloading the
message again ends at once, and with the same bytes.
-/

namespace Stowage

/-! ## The lengths of texts

A marker has four members. Three of them have a bounded text: the flag, a reference of 36 letters, a
size of at most twenty digits. The fourth is the key that the marker names. -/

namespace Json

/-- A text of characters that are written as they are, one byte each. -/
theorem length_printString_ascii {s : String}
    (h : ∀ c ∈ s.toList, c.toNat < 0x80 ∧ escape c = [c]) :
    (printString s).length = s.toList.length + 2 := by
  have hchars : ∀ cs : List Char, (∀ c ∈ cs, c.toNat < 0x80 ∧ escape c = [c]) →
      (Utf8.encode (cs.flatMap escape)).length = cs.length := by
    intro cs hcs
    induction cs with
    | nil => rfl
    | cons c cs ih =>
      obtain ⟨hascii, hescape⟩ := hcs c (List.mem_cons_self ..)
      rw [List.flatMap_cons, hescape, List.singleton_append, Utf8.encode_cons,
        Utf8.encodeChar_ascii hascii, List.singleton_append, List.length_cons, List.length_cons,
        ih fun d hd => hcs d (List.mem_cons_of_mem _ hd)]
  have hquote : Utf8.encode ['"'] = [34] := by decide
  rw [printString, List.cons_append, Utf8.encode_cons, Utf8.encodeChar_ascii (by decide),
    Utf8.encode_append, hquote, List.singleton_append, List.length_cons, List.length_append,
    hchars _ h, List.length_singleton]

/-- A 64-bit number has at most twenty digits. -/
theorem length_digitBytes_word {n : Nat} (h : n < wordLimit) : (digitBytes n).length ≤ 20 :=
  length_digitBytes_le (by decide) (Nat.lt_trans h (by decide))

end Json

/-- The text of a UUID: thirty-two digits and four hyphens. -/
theorem Uuid.length_text {id : Uuid} (h : id.bytes.length = 16) : id.text.toList.length = 36 := by
  have hpart : ∀ start count, start + count ≤ 16 →
      (((id.bytes.drop start).take count).flatMap Hex.pair).length = 2 * count := by
    intro start count hle
    have hpair : ∀ bytes : Bytes, (bytes.flatMap Hex.pair).length = 2 * bytes.length := by
      intro bytes
      induction bytes with
      | nil => rfl
      | cons b bytes ih =>
        rw [List.flatMap_cons, List.length_append, ih, List.length_cons]
        show 2 + _ = _
        omega
    rw [hpair, List.length_take, List.length_drop, h]
    omega
  rw [text, String.toList_ofList]
  simp only [List.length_append, List.length_cons]
  rw [hpart 0 4 (by decide), hpart 4 2 (by decide), hpart 6 2 (by decide), hpart 8 2 (by decide),
    hpart 10 6 (by decide)]

namespace Remote

open Chunk

/-- A drawn reference is the text of a UUID of sixteen random bytes. -/
def Drawn (ref : String) : Prop := ∃ draw : Bytes, draw.length = 16 ∧ ref = Uuid.refOf draw

/-- Quoted, a drawn reference takes 38 bytes. -/
theorem Drawn.length_printString {ref : String} (h : Drawn ref) :
    (Json.printString ref).length = 38 := by
  obtain ⟨draw, hdraw, rfl⟩ := h
  have hplain : ∀ k : Fin 16,
      (Nat.digitChar k).toNat < 0x80 ∧ Json.escape (Nat.digitChar k) = [Nat.digitChar k] := by decide
  rw [Json.length_printString_ascii, Uuid.refOf, Uuid.length_text]
  · rw [Uuid.length_ofRandom, hdraw]
  · intro c hc
    rcases mem_refOf hc with rfl | ⟨k, rfl⟩
    · decide
    · exact hplain k

/-- **A marker is short**, but for the key that it names. -/
theorem length_print_markerOf_le {c : Candidate} {ref : String} (href : Drawn ref)
    (hsize : c.bytes.length < Json.wordLimit) :
    (markerOf c ref).print.length ≤ 131 + (Json.printString c.fieldPath).length := by
  have hdigits := Json.length_digitBytes_word hsize
  have hflag : (utf8 "\x7b\"__chunked__\":true,\"__chunk_ref__\":").length = 36 := by decide
  have htotal : (utf8 ",\"__total_size__\":").length = 18 := by decide
  have hpath : (utf8 ",\"__field_path__\":").length = 18 := by decide
  have hend : (utf8 "\x7d").length = 1 := by decide
  rw [markerOf, Marker.print_make, Marker.wireText, Json.utf8_toString]
  simp only [List.length_append, href.length_printString, hflag, htotal, hpath, hend]
  omega

/-- No member of a marker for a whole message is long. -/
theorem length_print_member_le {c : Candidate} {ref : String} (href : Drawn ref)
    (hsize : c.bytes.length < Json.wordLimit) (hpath : c.fieldPath = "") {field : String × Json}
    (hfield : field ∈ (Marker.make ref c.bytes.length c.fieldPath).members true) :
    field.2.print.length ≤ 38 := by
  simp only [Marker.members, Marker.make, List.mem_cons, List.not_mem_nil, or_false] at hfield
  rcases hfield with rfl | rfl | rfl | rfl
  · decide
  · exact Nat.le_of_eq href.length_printString
  · have hdigits := Json.length_digitBytes_word hsize
    have hprint : (Json.number (.int (c.bytes.length : Int))).print =
        Json.digitBytes c.bytes.length := Json.utf8_toString c.bytes.length
    simp only [hprint]
    omega
  · rw [hpath]
    decide

end Remote

/-! ## The gate, a second time

What was replaced is now a marker, and what was not was small before. So if markers are small, the gate
finds nothing to do, and nothing is asked of the backend. -/

namespace Gate

variable {gate : Gate} {message : Bytes} {reference : Candidate → Json}

/-- A message without candidates is left alone, and nothing is asked. -/
theorem offload_of_candidates_nil (backend : Backend Program)
    (h : (Gate.mk backend.threshold).candidates message = []) :
    Message.offload backend message = .done (.ok message) := by
  -- no field and no message is over the threshold, so the gate lets it pass
  have hevaluate : (Gate.mk backend.threshold).evaluate message = .passthrough := by
    by_cases hobject : ∃ fields, Json.read? message = some (.object fields)
    · obtain ⟨fields, hread⟩ := hobject
      rw [evaluate_object _ hread, if_neg]
      intro hany
      obtain ⟨field, hfield, hselects⟩ := List.any_eq_true.mp hany
      rw [candidates_object _ hread] at h
      exact absurd (candidate_mem hfield hselects) (h ▸ List.not_mem_nil)
    · have hother : ∀ fields, Json.read? message ≠ some (.object fields) :=
        fun fields hread => hobject ⟨fields, hread⟩
      rw [candidates_other _ hother] at h
      rw [evaluate_other _ hother, whole, if_neg]
      intro hexceeds
      rw [if_pos hexceeds] at h
      cases h
  rw [Message.offload, hevaluate]
  rfl

/-- A gate that selects no field of an object has nothing to replace. -/
theorem candidates_eq_nil {fields : Json.Members} (hread : Json.read? message = some (.object fields))
    (h : ∀ field ∈ fields, ¬ gate.selects field) : gate.candidates message = [] := by
  rw [gate.candidates_object hread, List.filter_eq_nil_iff.mpr h]
  rfl

/-- **Nothing is left to replace** after fields were replaced by what is short enough, or a message by
an object of short fields. -/
theorem candidates_rewritten
    (hwhole : ∀ v, Json.read? message = some v → Json.IsWhole v)
    (hnested : ∀ c ∈ gate.candidates message,
      Json.Nested (Json.maxDepth - 1) (reference c) ∧ Json.IsWhole (reference c))
    (hfield : ∀ c ∈ gate.candidates message, (∃ fields, Json.read? message = some (.object fields)) →
      ¬ gate.exceeds (reference c).print.length)
    (hmembers : ∀ c ∈ gate.candidates message,
      (∀ fields, Json.read? message ≠ some (.object fields)) →
        ∃ members, reference c = .object members ∧ ∀ field ∈ members, ¬ gate.selects field) :
    gate.candidates (gate.rewritten reference message) = [] := by
  by_cases hobject : ∃ fields, Json.read? message = some (.object fields)
  · obtain ⟨fields, hread⟩ := id hobject
    rw [gate.candidates_object hread] at hnested hfield
    refine candidates_eq_nil (read?_rewritten hread (hwhole _ hread) hnested) fun field hmem => ?_
    -- a field was short enough to be left alone, or holds what is short enough
    rcases mem_replaced hmem with ⟨-, hsmall⟩ | ⟨old, hold, hselects, -, hvalue⟩
    · exact hsmall
    · rw [selects, hvalue]
      exact hfield _ (candidate_mem hold hselects) hobject
  · have hother : ∀ fields, Json.read? message ≠ some (.object fields) :=
      fun fields hread => hobject ⟨fields, hread⟩
    rw [gate.rewritten_other reference hother]
    rw [gate.candidates_other hother] at hnested hmembers
    split
    · next hexceeds =>
      rw [if_pos hexceeds] at hnested hmembers
      have hmem : (⟨"", message, Json.read? message⟩ : Candidate) ∈
        [(⟨"", message, Json.read? message⟩ : Candidate)] := List.mem_singleton_self _
      obtain ⟨members, hreference, hshort⟩ := hmembers _ hmem hother
      obtain ⟨hdeep, hints⟩ := hnested _ hmem
      rw [hreference] at hdeep hints ⊢
      exact candidates_eq_nil (Json.read?_print (hdeep.mono (by decide)) hints) hshort
    · next hexceeds => rw [gate.candidates_other hother, if_neg hexceeds]

end Gate

namespace Remote

open Chunk
open Disk (faulty)

/-! ## What offloading leaves

The replies of the host do not matter here: where offloading succeeds, every candidate was replaced by a
marker with a drawn reference. -/

variable {t : Transfer} {threshold : Nat} {c : Candidate} {d d' : Disk}
  {log : List Program.Exchange}

/-- A candidate that is stored is replaced by a marker with a drawn reference, whatever the world did. -/
theorem ends_offload {reply : Option Json}
    (h : Program.Ends faulty (offload t c) d log (.ok reply) d') :
    ∃ ref, reply = some (markerOf c ref) ∧ Drawn ref := by
  obtain ⟨_, _, draw, d₁, -, hdraw, hstore⟩ := Program.ends_bind.mp h
  obtain ⟨bytes, d₂, _, -, ⟨hlength, -⟩, hdrawn⟩ := Program.ends_call.mp hdraw
  obtain ⟨-, rfl, -⟩ := Program.ends_done.mp hdrawn
  obtain ⟨_, _, result, d₃, -, -, hdone⟩ := Program.ends_bind.mp hstore
  cases result with
  | error failure => cases (Program.ends_done.mp hdone).2.1
  | ok _ =>
    obtain ⟨-, hreply, -⟩ := Program.ends_done.mp hdone
    exact ⟨Uuid.refOf draw, Except.ok.inj hreply, draw, hlength, rfl⟩

/-- Candidates that are all stored are replaced one by one, each by a marker with a reference of its
own. -/
theorem ends_offloadAll (candidates : List Candidate) :
    ∀ {d d' log replies}, Program.Ends faulty
        (Message.offloadAll (backend t threshold) candidates) d log (.ok replies) d' →
      List.Forall₂ (fun c reply => ∃ ref, reply = some (markerOf c ref) ∧ Drawn ref)
        candidates replies := by
  -- induction on the candidates; a failed call ends the run, so all replies before it are markers
  induction candidates with
  | nil =>
    intro d d' log replies h
    obtain ⟨-, hreplies, -⟩ := Program.ends_done.mp h
    cases hreplies
    exact .nil
  | cons c rest ih =>
    intro d d' log replies h
    rw [Message.offloadAll, ← Program.bind_eq] at h
    obtain ⟨_, _, result, d₁, -, hfirst, hmore⟩ := Program.ends_bind.mp h
    cases result with
    | error failure => cases (Program.ends_done.mp hmore).2.1
    | ok reply =>
      obtain ⟨_, _, result, d₂, -, hrest, hdone⟩ := Program.ends_bind.mp hmore
      obtain ⟨-, hreplies, -⟩ := Program.ends_done.mp hdone
      cases result with
      | error failure => cases hreplies
      | ok replies =>
        cases hreplies
        exact .cons (ends_offload hfirst) (ih hrest)

/-- **What offloading leaves** if it succeeds: the message with every candidate replaced by a marker. -/
theorem ends_offload_message {message message' : Bytes}
    (h : Program.Ends faulty (Message.offload (backend t threshold) message) d log (.ok message') d') :
    ∃ refOf : String → String,
      message' = (Gate.mk threshold).rewritten (fun c => markerOf c (refOf c.fieldPath)) message ∧
        ∀ c ∈ (Gate.mk threshold).candidates message, Drawn (refOf c.fieldPath) := by
  rw [Message.offload_eq, ← Program.bind_eq] at h
  obtain ⟨_, _, result, d₁, -, hall, hdone⟩ := Program.ends_bind.mp h
  obtain ⟨-, hmessage, -⟩ := Program.ends_done.mp hdone
  cases result with
  | error failure => cases hmessage
  | ok replies =>
    obtain ⟨refOf, hreplies, hdrawn⟩ := Message.exists_by_key Candidate.fieldPath
      (f := fun c ref => some (markerOf c ref)) (P := fun _ ref => Drawn ref) (ends_offloadAll _ hall)
      ((Gate.mk threshold).nodup_candidates message)
    refine ⟨refOf, ?_, hdrawn⟩
    have hassemble := Message.assemble_some (Gate.mk threshold)
      (fun c => markerOf c (refOf c.fieldPath)) message
    rw [hreplies] at hmessage
    exact (Except.ok.inj hmessage).trans hassemble

/-- The length of the longest top-level key of a message, as it is written. -/
def longestKey (message : Bytes) : Nat :=
  match Json.read? message with
  | some (.object fields) => (fields.map fun field => (Json.printString field.1).length).foldr max 0
  | _ => 0

/-- No key is longer than the longest. -/
theorem le_longestKey {message : Bytes} {fields : Json.Members} {field : String × Json}
    (hread : Json.read? message = some (.object fields)) (hfield : field ∈ fields) :
    (Json.printString field.1).length ≤ longestKey message := by
  rw [longestKey, hread]
  exact List.le_max_of_le' 0 (List.mem_map_of_mem hfield) (Nat.le_refl _)

/-- **Offloading is idempotent.** With a threshold that leaves room for markers, a message that was
offloaded is offloaded to itself, byte for byte, and without a call. -/
theorem offload_idempotent (t : Transfer) (threshold : Nat) (message message' : Bytes) (w w' : World)
    (hdice : w.dice.Whole) (hwhole : ∀ v, Json.read? message = some v → Json.IsWhole v)
    (hsize : ∀ c ∈ (Gate.mk threshold).candidates message, c.bytes.length < Json.wordLimit)
    (hthreshold : 160 + longestKey message ≤ threshold)
    (hrun : World.run (Message.offload (backend t threshold) message) w = (.ok message', w')) :
    Message.offload (backend t threshold) message' = .done (.ok message') := by
  have hends := World.ends_run (Message.offload (backend t threshold) message) hdice
  rw [hrun] at hends
  obtain ⟨refOf, rfl, hdrawn⟩ := ends_offload_message hends
  refine Gate.offload_of_candidates_nil _ (Gate.candidates_rewritten hwhole ?_ ?_ ?_)
  · intro c hc
    exact ⟨(Marker.nested_toJson _).mono (by decide), Marker.isWhole_toJson (hsize c hc)⟩
  -- the marker of a field exceeds the text of its key by a constant at most
  · rintro c hc ⟨fields, hread⟩ hexceeds
    have hlength := length_print_markerOf_le (hdrawn c hc) (hsize c hc)
    rw [Gate.candidates_object _ hread] at hc
    obtain ⟨field, hfield, rfl⟩ := List.mem_map.mp hc
    have hkey := le_longestKey hread (List.mem_filter.mp hfield).1
    have hexceeds : threshold < _ := of_decide_eq_true hexceeds
    change _ ≤ 131 + (Json.printString field.1).length at hlength
    omega
  -- a message that went as a whole is an object of four members now, and none of them is too large
  · intro c hc hother
    refine ⟨_, rfl, fun field hfield hselects => ?_⟩
    have hpath : c.fieldPath = "" := by
      rw [Gate.candidates_other _ hother] at hc
      split at hc
      · rw [List.mem_singleton.mp hc]
      · cases hc
    have hlength := length_print_member_le (hdrawn c hc) (hsize c hc) hpath hfield
    have hselects : threshold < field.2.print.length := of_decide_eq_true hselects
    omega

/-- An object with a long array under a key that is written with an escape, and a small number. -/
def crowded : Json.Members :=
  [("\n", .array (List.replicate 90 (.number (.int 7)))), ("n", .number (.int 7))]

theorem isWhole_crowded : Json.IsWhole (.object crowded) := by
  have hseven : Json.IsWhole (.number (.int 7)) := .number _ (.int 7 (by decide) (by decide))
  refine .object _ fun m hm => ?_
  simp only [crowded, List.mem_cons, List.not_mem_nil, or_false] at hm
  rcases hm with rfl | rfl
  · exact .array _ fun item hitem => List.eq_of_mem_replicate hitem ▸ hseven
  · exact hseven

theorem read?_crowded : Json.read? (Json.object crowded).print = some (.object crowded) := by
  refine Json.read?_print (.object _ _ (by decide) fun m hm => ?_) isWhole_crowded
  simp only [crowded, List.mem_cons, List.not_mem_nil, or_false] at hm
  rcases hm with rfl | rfl
  · exact .array _ _ fun item hitem => List.eq_of_mem_replicate hitem ▸ .number _ _
  · exact .number _ _

/-- The array is moved to the host, and then nothing more is. -/
theorem offload_idempotent_crowded :
    ∃ (refOf : String → String) (message' : Bytes) (w' : World),
      message' = (Gate.mk 170).rewritten (fun c => markerOf c (refOf c.fieldPath))
        (Json.object crowded).print ∧
      World.run (Message.offload (backend (.make 64 ⟨10⟩) 170) (Json.object crowded).print)
          (unused 1000) = (.ok message', w') ∧
      Message.offload (backend (.make 64 ⟨10⟩) 170) message' = .done (.ok message') := by
  -- the array is over the threshold, the number is not
  have hcandidates : (Gate.mk 170).candidates (Json.object crowded).print =
      [Gate.candidate ("\n", .array (List.replicate 90 (.number (.int 7))))] := by
    rw [Gate.candidates_object _ read?_crowded, crowded, List.filter_cons_of_pos (by decide +kernel),
      List.filter_cons_of_neg (by decide), List.filter_nil]
    rfl
  have hcalm : Undisturbed (.make 64 ⟨10⟩) (.make 64 ⟨10⟩)
      ((Gate.mk 170).candidates (Json.object crowded).print) (unused 1000) := by
    rw [hcandidates]
    exact undisturbed_unused _ _ (by decide) (by decide +kernel)
  obtain ⟨refOf, w', hrun, -, hc⟩ := run_offload_undisturbed hcalm
  refine ⟨refOf, _, w', rfl, hrun, offload_idempotent _ _ _ _ (unused 1000) w' ?_ ?_
    (fun c hmem => (hc c hmem).1) ?_ hrun⟩
  · exact fun _ hmem => absurd hmem List.not_mem_nil
  · intro v hv
    rw [read?_crowded] at hv
    cases hv
    exact isWhole_crowded
  · rw [longestKey, read?_crowded]
    decide

end Remote

end Stowage
