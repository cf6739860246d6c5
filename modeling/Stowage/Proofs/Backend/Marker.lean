import Stowage.Proofs.Marker
import Stowage.Proofs.Message.RoundTrip
/-!
# Stowage — markers in messages

A marker that was made for a payload is recognized as what it was made from. Which members make a
reference is said by `Refers`. Whether an object is a marker hangs on a single one of them, and putting
markers into its fields does not change that member into a flag: a message that was no marker does not
become one (`recognize_replaced`).
-/

namespace Stowage

/-- A reference that is made has a text. -/
theorem Uuid.text_ne_empty (id : Uuid) : id.text ≠ "" := by
  intro h
  have hchars := congrArg String.toList h
  rw [Uuid.text, String.toList_ofList, String.toList_empty] at hchars
  simp at hchars

namespace Marker

/-- Whether a member is a flag that is set. -/
def isFlag : Option Json → Bool
  | some (.bool b) => b
  | _ => false

/-- The text of a marker is longer than that of its flag. -/
theorem lt_length_print {v : Json} (h : isMarker v = true) : 4 < v.print.length := by
  cases v with
  | object members =>
    cases members with
    | nil => cases h
    | cons m members =>
      have hprint := Json.print_object_append (m :: members) []
      rw [Json.printMembers_cons, Json.printMember_eq, Json.keyAndValue, List.append_nil] at hprint
      rw [hprint]
      obtain ⟨b, more, hvalue, -, -⟩ := Json.print_eq_cons m.2
      simp only [hvalue, List.length_cons, List.length_append]
      omega
  | _ => cases h

end Marker

namespace Remote

/-- The marker of a candidate that is stored under a reference. -/
def markerOf (c : Candidate) (ref : String) : Json :=
  (Marker.make ref c.bytes.length c.fieldPath).toJson

/-- A value is left alone exactly when it is no marker. -/
theorem recognize_eq_none_iff (value : Json) :
    recognize value = .ok none ↔ Marker.isMarker value = false := by
  have hdecoded := Marker.decoded_ofJson value
  rw [← Bool.not_eq_true, Marker.isMarker_iff]
  unfold recognize
  generalize Marker.ofJson value = result at hdecoded
  cases hdecoded with
  | ordinary hflag => simp [hflag]
  | marker hflag h => simp [hflag]
  | unusable hflag h => simp [hflag]

/-- The marker of a payload is recognized, with its size and its field. -/
theorem recognize_make {ref : String} (size : Nat) (path : String) (href : ref ≠ "")
    (hsize : size < Json.wordLimit) :
    recognize (Marker.make ref size path).toJson = .ok (some ⟨ref, size, path⟩) := by
  rw [recognize, Marker.ofJson_toJson rfl href hsize]
  rfl

/-- Only objects are markers. -/
theorem recognize_eq_none_of_not_object {v : Json} (h : ∀ members, v ≠ .object members) :
    recognize v = .ok none := by
  rw [recognize_eq_none_iff]
  cases v with
  | object members => exact absurd rfl (h members)
  | _ => rfl

/-- The members of a value that is recognized as a reference. -/
structure Refers (v : Json) (r : Reference) : Prop where
  flag : v.get? Marker.chunkedKey = some (.bool true)
  id : v.get? Marker.refKey = some (.string r.id)
  id_ne : r.id ≠ ""
  size : v.get? Marker.totalSizeKey = some (.number (.int r.totalSize))
  size_lt : r.totalSize < Json.wordLimit
  path : Marker.fieldPathOf v r.id = .ok r.fieldPath

/-- **References.** What a value is recognized as, if it is recognized as a reference. -/
theorem recognize_eq_some_iff {v : Json} {r : Reference} :
    recognize v = .ok (some r) ↔ Refers v r := by
  constructor
  · intro h
    have hdecoded := Marker.decoded_ofJson v
    -- each way of decoding a value says which members it has looked at
    unfold recognize at h
    generalize Marker.ofJson v = result at h hdecoded
    cases hdecoded with
    | ordinary hflag => cases h
    | unusable hflag hwhy => cases h
    | @marker m hflag hmembers =>
      cases h
      obtain ⟨hid, hne⟩ := Marker.idIs_iff.mp hmembers.ref
      obtain ⟨hsize, hlt⟩ := Marker.sizeIs_iff.mp hmembers.totalSize
      exact ⟨Marker.flagged_iff.mp hflag, hid, hne, hsize, hlt,
        Marker.fieldPathOf_eq_ok_iff.mpr hmembers.fieldPath⟩
  · intro h
    have hmembers : Marker.Describes v ⟨true, r.id, r.totalSize, r.fieldPath⟩ :=
      ⟨rfl, Marker.idIs_iff.mpr ⟨h.id, h.id_ne⟩, Marker.sizeIs_iff.mpr ⟨h.size, h.size_lt⟩,
        Marker.fieldPathOf_eq_ok_iff.mp h.path⟩
    rw [recognize, (Marker.Decoded.marker (Marker.flagged_iff.mpr h.flag) hmembers).ofJson_eq]
    rfl

/-- A flagged object whose members cannot be used is refused, with the reason. -/
theorem recognize_unusable {v : Json} {why : BadReference}
    (hflag : v.get? Marker.chunkedKey = some (.bool true)) (h : Marker.Unusable v why) :
    recognize v = .error (.invalidReference why) := by
  rw [recognize, (Marker.Decoded.unusable (Marker.flagged_iff.mpr hflag) h).ofJson_eq]

/-- Putting objects into the fields of an object that is no marker makes it none. -/
theorem recognize_replaced {gate : Gate} {reference : Candidate → Json} {fields : Json.Members}
    (hreference : ∀ c, ∃ members, reference c = .object members)
    (h : recognize (.object fields) = .ok none) :
    recognize (.object (gate.replaced reference fields)) = .ok none := by
  rw [recognize_eq_none_iff] at h ⊢
  exact gate.test_replaced Marker.isFlag (fun _ => rfl) hreference h

end Remote

end Stowage
