import Stowage.Proofs.Backend.FollowRemote
/-!
# Stowage — offloading a message that can be resolved

A message may hold references already, when it is offloaded. What can be resolved before can be resolved
afterwards: a field that is a reference stays one, or goes to the host itself and comes back from there.
There is one exception. The fields of a message that is a reference as a whole are judged like those of
any object, so its id or its size may go to the host while its flag stays: `Cuts`. What is left is a
reference that is unusable. `offload_resolvable` says both.
-/

namespace Stowage.Remote

open Chunk

/-- Offloading takes the id or the size out of a message that is a reference as a whole, and leaves the
flag. -/
structure Cuts (threshold : Nat) (message : Bytes) (r : Reference) : Prop where
  whole : ∃ value, Json.read? message = some value ∧ recognize value = .ok (some r)
  flag : 4 ≤ threshold
  member : threshold < (Json.string r.id).print.length ∨
    threshold < (Json.number (.int r.totalSize)).print.length

/-- Why what is left of a reference is unusable. -/
def cutFault (threshold : Nat) (r : Reference) : BadReference :=
  if threshold < (Json.string r.id).print.length then .idNotText else .noTotalSize r.id

/-! ## The members of a reference

A message that is itself a reference is an object, and offloading it goes by its members. The flag and
the path are short. The id and the size may be over a low threshold, and then the reference is cut:
something else stands in the place of a member. -/

section

variable {value : Json} {id path : String} {size : Nat} {members : Json.Members}

/-- Once an object stands in the place of the id, a marker is refused. -/
theorem recognize_idNotText (hflag : value.get? Marker.chunkedKey = some (.bool true))
    (hid : value.get? Marker.refKey = some (.object members)) :
    recognize value = .error (.invalidReference .idNotText) :=
  recognize_unusable hflag (.id (hid ▸ .notText _ nofun))

/-- It is refused as well if an object stands in the place of the size. -/
theorem recognize_noTotalSize (hflag : value.get? Marker.chunkedKey = some (.bool true))
    (hid : value.get? Marker.refKey = some (.string id)) (hne : id ≠ "")
    (hsize : value.get? Marker.totalSizeKey = some (.object members)) :
    recognize value = .error (.invalidReference (.noTotalSize id)) := by
  refine recognize_unusable hflag (.totalSize id (Marker.idIs_iff.mpr ⟨hid, hne⟩) fun size hword => ?_)
  rw [hsize] at hword
  cases hword

/-- An empty path has a short text. -/
theorem length_le_of_fieldPathOf {text : Json} (h : Marker.fieldPathOf value id = .ok "")
    (htext : value.get? Marker.fieldPathKey = some text) : text.print.length ≤ 4 := by
  rw [Marker.fieldPathOf, htext] at h
  cases text with
  | null => decide
  | string s =>
    cases h
    decide
  | _ => cases h

end

section

variable {threshold : Nat} {reference : Candidate → Json} {fields : Json.Members} {r : Reference}

/-- A member of an object is replaced if its text is over the threshold. -/
theorem get?_replaced_some {key : String} {value : Json}
    (h : (Json.object fields).get? key = some value) :
    (Json.object ((Gate.mk threshold).replaced reference fields)).get? key =
      some (if threshold < value.print.length then reference (Gate.candidate (key, value))
        else value) := by
  have hget := (Gate.mk threshold).get?_replaced reference fields key
  rw [show Json.Members.get? fields key = some value from h, Option.map_some] at hget
  refine hget.trans ?_
  simp [Gate.selects, Gate.exceeds]

/-- No member appears that was not there. -/
theorem get?_replaced_none {key : String} (h : (Json.object fields).get? key = none) :
    (Json.object ((Gate.mk threshold).replaced reference fields)).get? key = none := by
  have hget := (Gate.mk threshold).get?_replaced reference fields key
  rwa [show Json.Members.get? fields key = none from h] at hget

/-- An empty path is short enough to stay. -/
theorem fieldPathOf_replaced {id : String} (h : Marker.fieldPathOf (.object fields) id = .ok "")
    (hflag : 4 ≤ threshold) :
    Marker.fieldPathOf (.object ((Gate.mk threshold).replaced reference fields)) id = .ok "" := by
  refine Eq.trans ?_ h
  rw [Marker.fieldPathOf, Marker.fieldPathOf]
  cases hold : (Json.object fields).get? Marker.fieldPathKey with
  | none => rw [get?_replaced_none hold]
  | some path =>
    have hle := length_le_of_fieldPathOf h hold
    rw [get?_replaced_some hold, if_neg (by omega)]

/-- What is recognized in a reference whose long members have been replaced: the id and the size are
needed, any other member is not looked at. -/
theorem recognize_replaced_reference (hreference : ∀ c, ∃ members, reference c = .object members)
    (h : Refers (.object fields) r) (hpath : r.fieldPath = "") (hflag : 4 ≤ threshold) :
    recognize (.object ((Gate.mk threshold).replaced reference fields)) =
      if threshold < (Json.string r.id).print.length ∨
          threshold < (Json.number (.int r.totalSize)).print.length then
        .error (.invalidReference (cutFault threshold r))
      else .ok (some r) := by
  have hchunked := @get?_replaced_some threshold reference fields _ _ h.flag
  have hid := @get?_replaced_some threshold reference fields _ _ h.id
  have hsize := @get?_replaced_some threshold reference fields _ _ h.size
  have hshort : ¬ threshold < (Json.bool true).print.length := by
    rw [show (Json.bool true).print.length = 4 by decide]
    omega
  rw [if_neg hshort] at hchunked
  -- without the id nothing else counts, and without the size only the id does
  by_cases hlong : threshold < (Json.string r.id).print.length
  · obtain ⟨members, hc⟩ := hreference (Gate.candidate (Marker.refKey, .string r.id))
    rw [if_pos hlong, hc] at hid
    rw [if_pos (.inl hlong), cutFault, if_pos hlong]
    exact recognize_idNotText hchunked hid
  · rw [if_neg hlong] at hid
    by_cases hmany : threshold < (Json.number (.int r.totalSize)).print.length
    · obtain ⟨members, hc⟩ :=
        hreference (Gate.candidate (Marker.totalSizeKey, .number (.int r.totalSize)))
      rw [if_pos hmany, hc] at hsize
      rw [if_pos (.inr hmany), cutFault, if_neg hlong]
      exact recognize_noTotalSize hchunked hid h.id_ne hsize
    · rw [if_neg hmany] at hsize
      rw [if_neg (not_or.mpr ⟨hlong, hmany⟩)]
      have hkept := @fieldPathOf_replaced threshold reference _ _ (hpath ▸ h.path) hflag
      exact recognize_eq_some_iff.mpr ⟨hchunked, hid, h.id_ne, hsize, h.size_lt, hpath ▸ hkept⟩

/-- Where the flag goes as well, what is left is no reference. -/
theorem recognize_replaced_flag (hreference : ∀ c, ∃ members, reference c = .object members)
    (h : Refers (.object fields) r) (hflag : threshold < 4) :
    recognize (.object ((Gate.mk threshold).replaced reference fields)) = .ok none := by
  have hlong : threshold < (Json.bool true).print.length := by
    rw [show (Json.bool true).print.length = 4 by decide]
    exact hflag
  have hget := @get?_replaced_some threshold reference fields _ _ h.flag
  obtain ⟨members, hc⟩ := hreference (Gate.candidate (Marker.chunkedKey, .bool true))
  rw [if_pos hlong, hc] at hget
  rw [recognize_eq_none_iff, Marker.isMarker, hget]

end

/-- Only an object refers to anything. -/
theorem Refers.exists_fields {value : Json} {r : Reference} (h : Refers value r) :
    ∃ fields, value = .object fields := by
  have hflag := h.flag
  cases value with
  | object fields => exact ⟨fields, rfl⟩
  | _ => cases hflag

/-! ## The message that is left

What offloading leaves is printed, and read again before it is resolved. Numbers may be rounded on the
way, so it is compared up to likeness. -/

/-- Resolving stops at a message that looks like a reference and is none. -/
theorem run_resolve_error {t : Transfer} {threshold : Nat} {message : Bytes} {value : Json}
    {failure : Failure} {w : World} (hread : Json.read? message = some value)
    (h : recognize value = .error failure) :
    World.run (Message.resolve (backend t threshold) message) w = (.error failure, w) := by
  have hvalue : (backend t threshold).recognize value = .error failure := h
  unfold Message.resolve
  rw [hread]
  simp only
  rw [hvalue]
  rfl

/-- Rounding the numbers of a message does not make it another one to resolve. -/
theorem Resolvable.alike {t : Transfer} {start : World} {v w : Json} (halike : Json.Alike v w)
    (h : Resolvable t start v) : Resolvable t start w := by
  have hrecognize := recognize_alike halike
  cases h with
  | reference r h hpath hserving => exact .reference r (hrecognize ▸ h) hpath hserving
  | plain h hall =>
    refine .plain (hrecognize ▸ h) fun fields heq field hfield => ?_
    subst heq
    cases halike with
    | object halike =>
      obtain ⟨old, hold, hlike⟩ := halike.exists_mem field hfield
      exact (hall _ rfl old hold).alike hlike

section

variable {t : Transfer} {gate : Gate} {message : Bytes} {start : World} {reference : Candidate → Json}

/-- The message that is left spells the fields with the candidates replaced, but for roundings. -/
theorem alike_of_read?_rewritten {fields : Json.Members} {value : Json}
    (hread : Json.read? message = some (.object fields))
    (hreference : ∀ c ∈ gate.candidates message,
      Json.Nested (Json.maxDepth - 1) (reference c) ∧ Json.IsWhole (reference c))
    (h : Json.read? (gate.rewritten reference message) = some value) :
    Json.Alike (.object (gate.replaced reference fields)) value := by
  obtain ⟨hkeys, hnested⟩ := Json.field_nested hread
  rw [gate.candidates_object hread] at hreference
  rw [Gate.rewritten, hread] at h
  simp only at h
  -- every field is either as it was read or a marker, and both nest one level less
  by_cases hany : fields.any gate.selects
  · rw [if_pos hany] at h
    refine Json.read?_print_alike (.object (Json.maxDepth - 1) _ ?_ fun field hfield => ?_)
      (.object _ fun field hfield => ?_) h
    · rw [Gate.keys_replaced]
      exact hkeys
    · rcases Gate.mem_replaced hfield with ⟨hold, -⟩ | ⟨old, hold, hselects, -, hvalue⟩
      · exact hnested field hold
      · rw [hvalue]
        exact (hreference _ (Gate.candidate_mem hold hselects)).1
    · rcases Gate.mem_replaced hfield with ⟨hold, -⟩ | ⟨old, hold, hselects, -, hvalue⟩
      · exact (Json.read?_readable hread).member hold
      · rw [hvalue]
        exact (hreference _ (Gate.candidate_mem hold hselects)).2.mono .whole
  · rw [if_neg hany, hread] at h
    cases h
    rw [Gate.replaced_of_none reference hany]
    exact .refl (Json.read?_nested hread)

/-- Every field is followable where the old ones were and the new ones are references that are served. -/
theorem followable_replaced {fields : Json.Members}
    (hold : ∀ field ∈ fields, ¬ gate.selects field → Followable t start field.2)
    (hnew : ∀ field ∈ fields, gate.selects field →
      Followable t start (reference (Gate.candidate field))) :
    ∀ field ∈ gate.replaced reference fields, Followable t start field.2 := by
  intro field hfield
  rcases Gate.mem_replaced hfield with ⟨hmem, hsmall⟩ | ⟨old, hmem, hselects, -, hvalue⟩
  · exact hold field hmem hsmall
  · rw [hvalue]
    exact hnew old hmem hselects

end

/-- What was resolvable is resolvable with its candidates replaced, unless a reference is cut. -/
theorem resolvable_replaced {t : Transfer} {threshold : Nat} {fields : Json.Members} {w w' : World}
    {reference : Candidate → Json} (hreference : ∀ c, ∃ members, reference c = .object members)
    (hpreserves : Preserves w w') (h : Resolvable t w (.object fields))
    (hcut : ∀ r, Refers (.object fields) r → 4 ≤ threshold →
      ¬ (threshold < (Json.string r.id).print.length ∨
        threshold < (Json.number (.int r.totalSize)).print.length))
    (hnew : ∀ field ∈ fields, (Gate.mk threshold).selects field →
      Followable t w' (reference (Gate.candidate field))) :
    Resolvable t w' (.object ((Gate.mk threshold).replaced reference fields)) := by
  -- old fields that stay and markers that replace the others can all be followed
  have hfields : ∀ fields', Json.object ((Gate.mk threshold).replaced reference fields) =
      .object fields' → (∀ field ∈ fields, ¬ (Gate.mk threshold).selects field →
        Followable t w' field.2) → ∀ field ∈ fields', Followable t w' field.2 := by
    intro fields' heq hold
    cases heq
    exact followable_replaced hold hnew
  cases h with
  | reference r h hpath hserving =>
    have hrefers := recognize_eq_some_iff.mp h
    by_cases hflag : 4 ≤ threshold
    · have hrecognize := recognize_replaced_reference hreference hrefers hpath hflag
      rw [if_neg (hcut r hrefers hflag)] at hrecognize
      exact .reference r hrecognize hpath (hserving.preserved hpreserves hrefers.id_ne)
    · -- the flag goes, and what stays is too short for a reference
      refine .plain (recognize_replaced_flag hreference hrefers (by omega)) fun fields' heq =>
        hfields fields' heq fun field _ hsmall => followable_none ?_
      rw [recognize_eq_none_iff, ← Bool.not_eq_true]
      intro hmarker
      have hlength := Marker.lt_length_print hmarker
      have hle : field.2.print.length ≤ threshold :=
        Nat.not_lt.mp fun hlt => hsmall (decide_eq_true hlt)
      omega
  | plain h hall =>
    exact .plain (recognize_replaced hreference h) fun fields' heq =>
      hfields fields' heq fun field hfield _ => (hall _ rfl field hfield).preserved hpreserves

/-! ## The whole message

The cases are those of the message before: no object, an object that is a reference, any other object.
Only in the second can offloading make something unresolvable. -/

/-- What offloading leaves behind: the message with markers in the place of its candidates, and a host that
holds the payload of each, besides everything that it held before. -/
theorem run_offload_undisturbed {t t' : Transfer} {threshold : Nat} {message : Bytes} {w : World}
    (hcalm : Undisturbed t t' ((Gate.mk threshold).candidates message) w) :
    ∃ (refOf : String → String) (w' : World),
      World.run (Message.offload (backend t threshold) message) w =
          (.ok ((Gate.mk threshold).rewritten (fun c => markerOf c (refOf c.fieldPath)) message), w') ∧
        Preserves w w' ∧
        ∀ c ∈ (Gate.mk threshold).candidates message, c.bytes.length < Json.wordLimit ∧
          recognize (markerOf c (refOf c.fieldPath)) =
            .ok (some ⟨refOf c.fieldPath, c.bytes.length, c.fieldPath⟩) ∧
          Serving t' w' ⟨refOf c.fieldPath, c.bytes.length, c.fieldPath⟩ := by
  have hready : Ready t w.link.delay w.host.maximum ((Gate.mk threshold).candidates message) w :=
    ⟨hcalm.direct, rfl, rfl, hcalm.maximum_lt, fun c hc => Gate.bytes_ne_nil_of_mem_candidates hc,
      hcalm.fits, hcalm.storeInTime, hcalm.distinct, hcalm.fresh⟩
  obtain ⟨refOf, w', hoffload, hready', hstands, hkept⟩ :=
    Message.run_offload_kept (offloads t threshold w.link.delay w.host.maximum) hready
  refine ⟨refOf, w', hoffload,
    ⟨hcalm.direct, hready'.direct, hready'.delay_eq, fun c ref => hkept c ref⟩, fun c hc => ?_⟩
  -- the marker is followed by fetching what was just stored
  have hsize : c.bytes.length < Json.wordLimit :=
    Nat.lt_of_le_of_lt (hcalm.fits c hc) hcalm.maximum_lt
  have htime : t'.calls c.bytes.length * w'.link.delay ≤ t'.deadline.nanoseconds := by
    rw [hready'.delay_eq]
    exact hcalm.fetchInTime c hc
  obtain ⟨w'', hrun, -⟩ :=
    t'.run_fetch (serves hready'.direct (hstands c hc).2) htime (Keeps.refl w')
  exact ⟨hsize, recognize_make _ _ (hstands c hc).1 hsize,
    (serving_iff hready'.direct (.refl w')).mpr ⟨c.bytes, congrArg Prod.fst hrun⟩⟩

/-- A message that is no object stays as it is, or a marker stands for it. -/
theorem resolvable_rewritten_other {t : Transfer} {gate : Gate} {message : Bytes} {w : World}
    {reference : Candidate → Json} (hother : ∀ fields, Json.read? message ≠ some (.object fields))
    (hreference : ∀ c ∈ gate.candidates message,
      Json.Nested Json.maxDepth (reference c) ∧ Json.IsWhole (reference c) ∧
        (c.fieldPath = "" → Resolvable t w (reference c)))
    {value : Json} (h : Json.read? (gate.rewritten reference message) = some value) :
    Resolvable t w value := by
  rw [gate.candidates_other hother] at hreference
  rw [gate.rewritten_other _ hother] at h
  by_cases hexceeds : gate.exceeds message.length
  · rw [if_pos hexceeds] at hreference h
    obtain ⟨hnested, hwhole, hresolvable⟩ := hreference _ (List.mem_singleton_self _)
    rw [Json.read?_print hnested hwhole] at h
    cases h
    exact hresolvable rfl
  · rw [if_neg hexceeds] at h
    have hvalue : ∀ fields, value ≠ .object fields := fun fields heq => hother fields (heq ▸ h)
    exact .plain (recognize_eq_none_of_not_object hvalue) fun fields heq => absurd heq (hvalue fields)

/-- **Offloading what can be resolved.** A message that can be resolved is offloaded with success, and what
comes of it can be resolved, unless the message is a reference of which the id or the size is over the
threshold and the flag is not. Then resolving what comes of it fails, if that is JSON: its numbers may be
rounded out of range on the way, but not if they are whole. -/
theorem offload_resolvable (t t' : Transfer) (threshold threshold' : Nat) (message : Bytes)
    (w : World) (hcalm : Undisturbed t t' ((Gate.mk threshold).candidates message) w)
    (hresolves : Succeeds (Message.resolve (backend t' threshold') message) w) :
    ∃ (message' : Bytes) (w' : World),
      World.run (Message.offload (backend t threshold) message) w = (.ok message', w') ∧
      ((∀ r, ¬ Cuts threshold message r) →
        Succeeds (Message.resolve (backend t' threshold') message') w') ∧
      ∀ r, Cuts threshold message r →
        ((Json.read? message').isSome →
          World.run (Message.resolve (backend t' threshold') message') w' =
            (.error (.invalidReference (cutFault threshold r)), w')) ∧
        ((∀ value, Json.read? message = some value → Json.IsWhole value) →
          (Json.read? message').isSome) := by
  obtain ⟨refOf, w', hoffload, hpreserves, hmarker⟩ := run_offload_undisturbed hcalm
  set gate := Gate.mk threshold
  set reference : Candidate → Json := fun c => markerOf c (refOf c.fieldPath)
  have hobject : ∀ c, ∃ members, reference c = .object members := fun c => ⟨_, rfl⟩
  have hspelled : ∀ c ∈ gate.candidates message,
      Json.Nested (Json.maxDepth - 1) (reference c) ∧ Json.IsWhole (reference c) := fun c hc =>
    ⟨(Marker.nested_toJson _).mono (by decide), Marker.isWhole_toJson (hmarker c hc).1⟩
  have hbefore := (succeeds_resolve hcalm.direct message (.refl w)).mp hresolves
  refine ⟨gate.rewritten reference message, w', hoffload, fun hcut => ?_, fun r hcut => ⟨?_, ?_⟩⟩
  -- what offloading leaves was resolvable before, field by field, or is a new marker
  · rw [succeeds_resolve hpreserves.direct' _ (.refl w')]
    intro value hvalue
    by_cases hfields : ∃ fields, Json.read? message = some (.object fields)
    · obtain ⟨fields, hread⟩ := hfields
      refine (resolvable_replaced hobject hpreserves (hbefore _ hread) ?_ ?_).alike
        (alike_of_read?_rewritten hread hspelled hvalue)
      · exact fun r hr hflag hmember =>
          hcut r ⟨⟨_, hread, recognize_eq_some_iff.mpr hr⟩, hflag, hmember⟩
      · intro field hfield hselects
        rw [gate.candidates_object hread] at hmarker
        obtain ⟨-, hrecognize, hserving⟩ := hmarker _ (Gate.candidate_mem hfield hselects)
        exact (followable_some hrecognize).mpr hserving
    · refine resolvable_rewritten_other (fun fields h => hfields ⟨fields, h⟩) (fun c hc => ?_) hvalue
      obtain ⟨hnested, hwhole⟩ := hspelled c hc
      obtain ⟨-, hrecognize, hserving⟩ := hmarker c hc
      exact ⟨hnested.mono (by decide), hwhole, fun hpath => .reference _ hrecognize hpath hserving⟩
  -- the member that was cut is the first that cannot be used, whatever the others are
  · intro hsome
    obtain ⟨value, hvalue⟩ := Option.isSome_iff_exists.mp hsome
    obtain ⟨old, hread, hr⟩ := hcut.whole
    obtain ⟨fields, rfl⟩ := (recognize_eq_some_iff.mp hr).exists_fields
    have hpath := ((resolvable_some hr).mp (hbefore _ hread)).1
    have hrecognize := recognize_replaced_reference hobject (recognize_eq_some_iff.mp hr) hpath
      hcut.flag
    rw [if_pos hcut.member, recognize_alike (alike_of_read?_rewritten hread hspelled hvalue)]
      at hrecognize
    exact run_resolve_error hvalue hrecognize
  -- where all numbers are whole, what is left is read as it was printed
  · intro hwhole
    obtain ⟨old, hread, hr⟩ := hcut.whole
    obtain ⟨fields, rfl⟩ := (recognize_eq_some_iff.mp hr).exists_fields
    rw [Gate.read?_rewritten hread (hwhole _ hread) (gate.candidates_object hread ▸ hspelled)]
    rfl

/-! ## A reference that is cut -/

/-- Two bytes. -/
def twoBytes : Bytes := [104, 105]

/-- Their marker. -/
def held : Marker := .make "reference" twoBytes.length ""

/-- A world of which nothing has been used, with the two bytes at its host. -/
def holding : World :=
  { unused 100 with host := (Store.empty 100).put "reference" ⟨twoBytes.length, twoBytes⟩ }

theorem find?_holding : holding.host.find? "reference" = some ⟨twoBytes.length, twoBytes⟩ :=
  Store.find?_put_self ..

/-- The id of the marker is over the threshold, and its flag is not. -/
theorem offload_resolvable_cut :
    Succeeds (Message.resolve (backend (.make 3 ⟨10⟩) 8) held.toJson.print) holding ∧
      ∃ (message' : Bytes) (w' : World),
        World.run (Message.offload (backend (.make 3 ⟨10⟩) 8) held.toJson.print) holding =
            (.ok message', w') ∧
          World.run (Message.resolve (backend (.make 3 ⟨10⟩) 8) message') w' =
            (.error (.invalidReference .idNotText), w') := by
  -- the marker refers to two bytes that the host holds, and its id alone is over the threshold
  have hdirect : holding.Direct := ⟨rfl, fun _ => rfl⟩
  have hwhole : Json.IsWhole held.toJson := Marker.isWhole_toJson (by decide)
  have hread : Json.read? held.toJson.print = some held.toJson :=
    Json.read?_print ((Marker.nested_toJson _).mono (by decide)) hwhole
  have hrecognize : recognize held.toJson = .ok (some ⟨"reference", 2, ""⟩) :=
    recognize_make 2 "" (by decide) (by decide)
  have hcandidates : (Gate.mk 8).candidates held.toJson.print =
      [Gate.candidate (Marker.refKey, .string "reference")] := by
    rw [Gate.candidates_object _ hread]
    rfl
  have hcalm : Undisturbed (.make 3 ⟨10⟩) (.make 3 ⟨10⟩)
      ((Gate.mk 8).candidates held.toJson.print) holding := by
    have hone : ∀ {P : Candidate → Prop}, P (Gate.candidate (Marker.refKey, .string "reference")) →
        ∀ c ∈ (Gate.mk 8).candidates held.toJson.print, P c := by
      intro P hP c hc
      rw [hcandidates] at hc
      rwa [List.mem_singleton.mp hc]
    refine ⟨hdirect, by decide, hone (by decide), hone (by decide), hone (by decide), ?_, ?_⟩
    · rw [hcandidates]
      exact List.nodup_singleton _
    · rw [hcandidates]
      exact fun ref href => by rw [List.mem_singleton.mp href]; decide
  -- before offloading, the marker can be followed
  have hresolves : Succeeds (Message.resolve (backend (.make 3 ⟨10⟩) 8) held.toJson.print) holding := by
    rw [succeeds_resolve hdirect _ (.refl holding), hread]
    rintro value ⟨⟩
    refine .reference _ hrecognize rfl ((serving_iff hdirect (.refl holding)).mpr ?_)
    obtain ⟨w', hrun, -⟩ := Transfer.run_fetch (.make 3 ⟨10⟩) (serves hdirect find?_holding)
      (by decide) (Keeps.refl holding)
    exact ⟨_, congrArg Prod.fst hrun⟩
  obtain ⟨message', w', hoffload, -, hcut⟩ :=
    offload_resolvable (.make 3 ⟨10⟩) (.make 3 ⟨10⟩) 8 8 _ holding hcalm hresolves
  obtain ⟨hfails, hsome⟩ := hcut ⟨"reference", 2, ""⟩
    ⟨⟨_, hread, hrecognize⟩, by decide, .inl (by decide)⟩
  refine ⟨hresolves, message', w', hoffload, hfails (hsome ?_)⟩
  rw [hread]
  rintro value ⟨⟩
  exact hwhole

end Stowage.Remote
