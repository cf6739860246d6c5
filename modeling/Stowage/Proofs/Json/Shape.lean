import Mathlib.Data.List.Forall2
import Mathlib.Data.List.Nodup
import Stowage.Json.Shape
import Stowage.Proofs.Json.RoundTrip
/-!
# Stowage — records read back

A record that is printed as an object with all of its members in order is read back member by member:
`Shape.read_print`. What has to be known of the members is that their readers read the values that
stand in the object (`Fits`).
-/

namespace Stowage.Json

/-! ## Scalars

The members of a record are read by readers of their own kinds, each with its own message for a value of
another kind. All of them read back what is printed. -/

theorem anyNumber_print (expected : String) {n : Number} (hn : n.IsWhole) {rest : Bytes}
    (hrest : Delimits rest) : anyNumber expected (print (.number n) ++ rest) = .ok (n, rest) := by
  have hspelled := hn.spelled
  rw [print]
  generalize utf8 n.text = bytes at hspelled ⊢
  cases hspelled with
  | plain b more hdigit hread =>
    rw [anyNumber, List.cons_append, skipBlanks_cons (isBlank_of_isDigit hdigit)]
    simp only
    rw [if_neg (ne_of_isDigit hdigit (by decide)), if_pos hdigit, hread rest hrest]
  | minus more hread =>
    rw [anyNumber, List.cons_append, skipBlanks_cons (by decide)]
    exact hread rest hrest

theorem natural_print (expected : String) {bound n : Nat} (hbound : n < bound) (hword : n < wordLimit)
    {rest : Bytes} (hrest : Delimits rest) :
    natural bound expected (print (.number (.int n)) ++ rest) = .ok (n, rest) := by
  rw [natural, anyNumber_print expected (Number.isWhole_natural hword) hrest]
  simp only [bind, Except.bind]
  rw [if_pos ⟨Int.natCast_nonneg n, Int.ofNat_lt.mpr hbound⟩, Int.toNat_natCast]

theorem quotedText_print (s : String) (rest : Bytes) :
    quotedText (print (.string s) ++ rest) = .ok (s, rest) := by
  rw [print, printString_eq, List.cons_append, quotedText, skipBlanks_cons (by decide),
    List.append_assoc, List.singleton_append]
  exact text_printString s rest

theorem flag_print (b : Bool) (rest : Bytes) : flag (print (.bool b) ++ rest) = .ok (b, rest) := by
  cases b with
  | false =>
    rw [print, show utf8 "false" = [102, 97, 108, 115, 101] from by decide]
    rfl
  | true =>
    rw [print, show utf8 "true" = [116, 114, 117, 101] from by decide]
    rfl

/-- A printed `null` is read as nothing. -/
theorem optional_null (item : Reader Json) (rest : Bytes) :
    optional item (print .null ++ rest) = .ok (none, rest) := by
  rw [print, show utf8 "null" = [110, 117, 108, 108] from by decide]
  rfl

/-- Only the text of `null` starts like it. -/
theorem print_head_ne {v : Json} (hnull : v ≠ .null) :
    ∃ b more, print v = b :: more ∧ isBlank b = false ∧ b ≠ 110 := by
  obtain ⟨b, more, hprint, hblank, -⟩ := print_eq_cons v
  refine ⟨b, more, hprint, hblank, ?_⟩
  rintro rfl
  -- a value that starts with this byte would be `null`
  cases v with
  | null => exact hnull rfl
  | bool b => cases b <;> exact absurd (List.cons.inj hprint).1 (by decide)
  | number n =>
    obtain ⟨b, more', htext, hb⟩ := n.exists_head
    rw [print, htext] at hprint
    obtain rfl : b = 110 := (List.cons.inj hprint).1
    rcases hb with hdigit | hminus
    · exact absurd hdigit (by decide)
    · exact absurd hminus (by decide)
  | string s =>
    rw [print, printString_eq] at hprint
    exact absurd (List.cons.inj hprint).1 (by decide)
  | array items =>
    have hopen := print_array_append items []
    rw [hprint] at hopen
    exact absurd (List.cons.inj hopen).1 (by decide)
  | object members =>
    have hopen := print_object_append members []
    rw [hprint] at hopen
    exact absurd (List.cons.inj hopen).1 (by decide)

/-- Any other value is read by the reader of items. -/
theorem optional_print_of_ne (item : Reader Json) {v : Json} (hnull : v ≠ .null) (rest : Bytes) :
    optional item (print v ++ rest) =
      (item (print v ++ rest)).map fun read => (some read.1, read.2) := by
  obtain ⟨b, more, hprint, hblank, hb⟩ := print_head_ne hnull
  rw [hprint, List.cons_append, optional, skipBlanks_cons hblank]
  split
  · next h => exact absurd (List.cons.inj h).1 hb
  · cases item (b :: (more ++ rest)) <;> rfl

/-- What its reader makes of it is kept. -/
theorem optional_print {item : Reader Json} {v w : Json} (hreads : RereadsAs item v w)
    (hnull : v ≠ .null) {rest : Bytes} (hrest : Delimits rest) :
    optional item (print v ++ rest) = .ok (some w, rest) := by
  rw [optional_print_of_ne item hnull, hreads rest hrest]
  rfl

/-! ## Members

`Fits` is what a record has to know of a member and its value. The members are then read in order, each
into a slot of its own key. -/

/-- `Fits m e`: the member of a record has the key of an entry, and its reader reads the value of the
entry as its slot. -/
structure Fits (m : Member) (e : (String × Json) × Slot) : Prop where
  key : m.key = e.1.1
  read : ∀ rest, Delimits rest → m.read (print e.1.2 ++ rest) = .ok (e.2, rest)

section

variable (key : String) {absent : Option Slot}

theorem fits_flag (b : Bool) :
    Fits ⟨key, fun bytes => (flag bytes).map fun r => (.flag r.1, r.2), absent⟩
      ((key, .bool b), .flag b) := by
  refine ⟨rfl, fun rest _ => ?_⟩
  simp only [flag_print]
  rfl

theorem fits_natural (expected : String) {bound n : Nat} (hbound : n < bound) (hword : n < wordLimit) :
    Fits ⟨key, fun bytes => (natural bound expected bytes).map fun r => (.natural r.1, r.2), absent⟩
      ((key, .number (.int n)), .natural n) := by
  refine ⟨rfl, fun rest hrest => ?_⟩
  simp only [natural_print expected hbound hword hrest]
  rfl

theorem fits_text (s : String) :
    Fits ⟨key, fun bytes => (quotedText bytes).map fun r => (.text r.1, r.2), absent⟩
      ((key, .string s), .text s) := by
  refine ⟨rfl, fun rest _ => ?_⟩
  simp only [quotedText_print]
  rfl

end

/-- A member with a key of its own is the one that is found. -/
theorem find?_key_eq_some {α : Type} (key : α → String) {items : List α} {item : α}
    (hkeys : (items.map key).Nodup) (h : item ∈ items) :
    (items.find? fun other => key other == key item) = some item := by
  induction items with
  | nil => cases h
  | cons first rest ih =>
    rw [List.map_cons, List.nodup_cons] at hkeys
    rcases List.mem_cons.mp h with rfl | hrest
    · rw [List.find?_cons_of_pos (by simp)]
    · have hne : key first ≠ key item := fun heq =>
        hkeys.1 (heq ▸ List.mem_map.mpr ⟨item, hrest, rfl⟩)
      rw [List.find?_cons_of_neg (by simpa using hne), ih hkeys.2 hrest]

/-- What is read for an entry. -/
def slotOf (e : (String × Json) × Slot) : String × Slot := (e.1.1, e.2)

/-- A member that has not been read yet is read. -/
theorem shapeMember_fits {shape : Shape} {m : Member} {e : (String × Json) × Slot}
    (hfits : Fits m e) (hfind : (shape.members.find? fun n => n.key == m.key) = some m)
    {slots : Slots} (hnew : ∀ slot ∈ slots, slot.1 ≠ m.key) {rest : Bytes} (hrest : Delimits rest) :
    shape.member slots (keyAndValue e.1 ++ rest) = .ok (slotOf e :: slots, rest) := by
  -- a key that has been read before would be refused as a duplicate
  have hany : (slots.any fun slot => slot.1 == m.key) = false := by
    rw [List.any_eq_false]
    exact fun slot hslot => by simpa using hnew slot hslot
  rw [hfits.key] at hfind hany
  rw [Shape.member, keyAndValue, List.append_assoc, List.cons_append, List.cons_append,
    text_printString]
  simp only [bind, Except.bind, hfind, hany, colon_cons, hfits.read rest hrest, slotOf,
    Bool.false_eq_true, if_false]

section

variable {shape : Shape} {ms : List Member} {es : List ((String × Json) × Slot)}

/-- After the opening quote of the first key, a member is read. -/
theorem membersFrom_first {fuel : Nat} {after unread : Bytes} {slots : Slots}
    (hmember : shape.member [] after = .ok (slots, unread)) :
    shape.membersFrom (fuel + 1) true [] (34 :: after) =
      shape.membersFrom fuel false slots unread := by
  rw [Shape.membersFrom, skipBlanks_cons (by decide)]
  simp only
  rw [if_neg (by decide), if_pos trivial, if_pos trivial, hmember]

/-- The members after the first are read, whatever comes after them. Induction on the members that are
left; none of them is among those read. -/
theorem membersFrom_append (hfits : List.Forall₂ Fits ms es) {tail : Bytes} (htail : Delimits tail) :
    ∀ (fuel : Nat) (slots : Slots), (∀ m ∈ ms, m ∈ shape.members) →
      (shape.members.map Member.key).Nodup → (ms.map Member.key).Nodup →
      (∀ m ∈ ms, ∀ slot ∈ slots, slot.1 ≠ m.key) →
        shape.membersFrom (fuel + ms.length) false slots (moreMembers (es.map Prod.fst) ++ tail) =
          shape.membersFrom fuel false ((es.map slotOf).reverse ++ slots) tail := by
  induction hfits with
  | nil => exact fun _ _ _ _ _ _ => rfl
  | @cons m e ms es hm _ ih =>
    intro fuel slots hin hshape hkeys hnew
    rw [List.map_cons, List.nodup_cons] at hkeys
    have hmember := shapeMember_fits hm (find?_key_eq_some Member.key hshape
      (hin m (List.mem_cons_self ..))) (hnew m (List.mem_cons_self ..))
      (delimits_moreMembers_append (es.map Prod.fst) htail)
    -- the member that was just read is not among those to come
    have hlater := ih fuel (slotOf e :: slots) (fun n hn => hin n (List.mem_cons_of_mem _ hn)) hshape
      hkeys.2 (fun n hn slot hslot => by
        rcases List.mem_cons.mp hslot with rfl | hold
        · rw [slotOf, ← hm.key]
          exact fun heq => hkeys.1 (heq ▸ List.mem_map.mpr ⟨n, hn, rfl⟩)
        · exact hnew n (List.mem_cons_of_mem _ hn) slot hold)
    have hstep : shape.membersFrom (fuel + ms.length + 1) false slots
        (44 :: 34 :: (keyAndValue e.1 ++ (moreMembers (es.map Prod.fst) ++ tail))) =
        shape.membersFrom (fuel + ms.length) false (slotOf e :: slots)
          (moreMembers (es.map Prod.fst) ++ tail) := by
      rw [Shape.membersFrom, skipBlanks_cons (by decide)]
      simp only [skipBlanks_cons (show isBlank 34 = false by decide), hmember]
      rfl
    rw [List.map_cons, moreMembers_cons_append, List.length_cons, ← Nat.add_assoc, hstep, hlater,
      List.map_cons, List.reverse_cons, List.append_assoc, List.singleton_append]

/-- Every member takes a byte. -/
theorem length_le_moreMembers (hfits : List.Forall₂ Fits ms es) :
    ms.length ≤ (moreMembers (es.map Prod.fst)).length := by
  induction hfits with
  | nil => exact Nat.zero_le _
  | cons _ _ ih =>
    rw [List.map_cons, moreMembers, List.flatMap_cons, ← moreMembers]
    simp only [List.length_append, List.length_cons]
    omega

/-- The members after the first are read up to the brace. -/
theorem membersFrom_moreMembers (hfits : List.Forall₂ Fits ms es) (rest : Bytes) (fuel : Nat)
    (slots : Slots) (hin : ∀ m ∈ ms, m ∈ shape.members) (hshape : (shape.members.map Member.key).Nodup)
    (hkeys : (ms.map Member.key).Nodup) (hnew : ∀ m ∈ ms, ∀ slot ∈ slots, slot.1 ≠ m.key)
    (hfuel : (moreMembers (es.map Prod.fst) ++ 125 :: rest).length ≤ fuel) :
    shape.membersFrom fuel false slots (moreMembers (es.map Prod.fst) ++ 125 :: rest) =
      .ok ((es.map slotOf).reverse ++ slots, 125 :: rest) := by
  have hlength := length_le_moreMembers hfits
  rw [List.length_append, List.length_cons] at hfuel
  obtain ⟨k, rfl⟩ : ∃ k, fuel = k + 1 + ms.length := ⟨fuel - ms.length - 1, by omega⟩
  rw [membersFrom_append hfits (.brace rest) (k + 1) slots hin hshape hkeys hnew, Shape.membersFrom,
    skipBlanks_cons (by decide)]
  rfl

/-- Values that fit stand under the keys of their members. -/
theorem keys_of_fits (hfits : List.Forall₂ Fits ms es) :
    (es.map fun e => e.1.1) = ms.map Member.key := by
  induction hfits with
  | nil => rfl
  | cons hm _ ih => rw [List.map_cons, List.map_cons, hm.key, ih]

/-- The members of a record are read back up to the brace. -/
theorem membersFrom_printMembers (hfits : List.Forall₂ Fits ms es)
    (hin : ∀ m ∈ ms, m ∈ shape.members) (hshape : (shape.members.map Member.key).Nodup)
    (hkeys : (ms.map Member.key).Nodup) (rest : Bytes) :
    shape.membersFrom ((printMembers (es.map Prod.fst) ++ 125 :: rest).length + 1) true []
        (printMembers (es.map Prod.fst) ++ 125 :: rest) =
      .ok ((es.map slotOf).reverse, 125 :: rest) := by
  cases hfits with
  | nil =>
    rw [List.map_nil, printMembers, List.nil_append, Shape.membersFrom,
      skipBlanks_cons (by decide)]
    rfl
  | @cons m e ms es hm hrest =>
    -- the keys of the others are not the first one, so its slot is not in their way
    rw [List.map_cons, List.nodup_cons] at hkeys
    have hmember := shapeMember_fits hm (find?_key_eq_some Member.key hshape
      (hin m (List.mem_cons_self ..))) (fun slot hslot => absurd hslot List.not_mem_nil)
      (delimits_moreMembers (es.map Prod.fst) rest)
    have hlater := membersFrom_moreMembers hrest rest
      ((printMembers ((e :: es).map Prod.fst) ++ 125 :: rest).length) [slotOf e]
      (fun n hn => hin n (List.mem_cons_of_mem _ hn)) hshape hkeys.2 (fun n hn slot hslot => by
        rw [List.mem_singleton] at hslot
        rw [hslot, slotOf, ← hm.key]
        exact fun heq => hkeys.1 (heq ▸ List.mem_map.mpr ⟨n, hn, rfl⟩))
      (by
        rw [List.map_cons, printMembers_cons]
        simp only [List.length_append, List.length_cons]
        omega)
    have htext : printMembers ((e :: es).map Prod.fst) ++ 125 :: rest =
        34 :: (keyAndValue e.1 ++ (moreMembers (es.map Prod.fst) ++ 125 :: rest)) := by
      rw [List.map_cons, printMembers_cons, printMember_eq, List.append_assoc, List.cons_append]
    rw [htext] at hlater ⊢
    rw [membersFrom_first hmember, hlater, List.map_cons, List.reverse_cons]

/-- What was read is found again in the slots, member by member. -/
theorem fill_fits (hfits : List.Forall₂ Fits ms es) (slots : Slots)
    (hfind : ∀ e ∈ es, (slots.find? fun slot => slot.1 == e.1.1) = some (slotOf e)) :
    Shape.fill slots ms = .ok (es.map Prod.snd) := by
  induction hfits with
  | nil => rfl
  | @cons m e ms es hm _ ih =>
    rw [Shape.fill, hm.key, hfind e (List.mem_cons_self ..),
      ih fun d hd => hfind d (List.mem_cons_of_mem _ hd)]
    rfl

end

theorem afterBrace_brace (rest : Bytes) : afterBrace (125 :: rest) = rest := by
  rw [afterBrace, skipBlanks_cons (by decide)]
  rfl

/-- **Records.** An object with exactly the members of a record, in their order, is read back. -/
theorem Shape.read_print {shape : Shape} {es : List ((String × Json) × Slot)}
    (hfits : List.Forall₂ Fits shape.members es) (hkeys : (shape.members.map Member.key).Nodup)
    (rest : Bytes) :
    shape.read (print (.object (es.map Prod.fst)) ++ rest) = .ok (es.map Prod.snd, rest) := by
  have hslotKeys := keys_of_fits hfits
  have hfill : Shape.fill (es.map slotOf).reverse shape.members = .ok (es.map Prod.snd) := by
    refine fill_fits hfits _ fun e he => ?_
    refine (find?_key_eq_some Prod.fst ?_ ?_ :
      (es.map slotOf).reverse.find? (fun slot => slot.1 == (slotOf e).1) = some (slotOf e))
    -- slots are found by key, so their order does not matter
    · rw [List.map_reverse, List.nodup_reverse, List.map_map]
      show (es.map fun e => e.1.1).Nodup
      rw [hslotKeys]
      exact hkeys
    · exact List.mem_reverse.mpr (List.mem_map.mpr ⟨e, he, rfl⟩)
  have hmembers := membersFrom_printMembers hfits (fun _ h => h) hkeys hkeys rest
  rw [print_object_append, Shape.read, skipBlanks_cons (by decide)]
  simp only
  rw [if_neg (by decide), if_pos trivial]
  simp only [bind, Except.bind, hmembers, hfill, afterBrace_brace]

/-! ## A member that is not read

A record is not read if one of its members is not. If the members before it are read, the stop of that
member is the stop of the record. -/

/-- A member whose value stops its reader stops the reader of the record. -/
theorem membersFrom_stop {shape : Shape} {m : Member} {v : Json} {rest : Bytes} {stop : Stop}
    (hfind : (shape.members.find? fun n => n.key == m.key) = some m) {slots : Slots}
    (hnew : ∀ slot ∈ slots, slot.1 ≠ m.key) (hstop : m.read (print v ++ rest) = .error stop)
    (fuel : Nat) :
    shape.membersFrom (fuel + 1) false slots (44 :: 34 :: (keyAndValue (m.key, v) ++ rest)) =
      .error stop := by
  have hany : (slots.any fun slot => slot.1 == m.key) = false := by
    rw [List.any_eq_false]
    exact fun slot hslot => by simpa using hnew slot hslot
  have hmember : shape.member slots (keyAndValue (m.key, v) ++ rest) = .error stop := by
    rw [Shape.member, keyAndValue, List.append_assoc, List.cons_append, List.cons_append,
      text_printString]
    simp only [bind, Except.bind, hfind, hany, colon_cons, hstop, Bool.false_eq_true, if_false]
  rw [Shape.membersFrom, skipBlanks_cons (by decide)]
  simp only [skipBlanks_cons (show isBlank 34 = false by decide), hmember]
  rfl

section

variable {shape : Shape} {first last : Member} {ms : List Member} {e : (String × Json) × Slot}
  {es : List ((String × Json) × Slot)} {v : Json} {reason : Reason}

/-- The members up to the last one are read, and the last one stops its reader. -/
theorem membersFrom_printMembers_stop (hmembers : shape.members = first :: ms ++ [last])
    (hkeys : (shape.members.map Member.key).Nodup) (hfirst : Fits first e)
    (hfits : List.Forall₂ Fits ms es)
    (hstop : ∀ rest, Delimits rest → ∃ left, last.read (print v ++ rest) = .error ⟨reason, left⟩)
    (rest : Bytes) :
    ∃ left, shape.membersFrom
      ((printMembers ((e :: es).map Prod.fst ++ [(last.key, v)]) ++ 125 :: rest).length + 1) true []
        (printMembers ((e :: es).map Prod.fst ++ [(last.key, v)]) ++ 125 :: rest) =
      .error ⟨reason, left⟩ := by
  obtain ⟨left, hleft⟩ := hstop _ (.brace rest)
  refine ⟨left, ?_⟩
  have hin : ∀ m, m = first ∨ m ∈ ms ∨ m = last → m ∈ shape.members := by
    intro m hm
    rw [hmembers]
    simpa [or_assoc] using hm
  have hnodup := hkeys
  rw [hmembers, List.map_append, List.map_cons, List.nodup_append, List.nodup_cons] at hnodup
  obtain ⟨⟨hnotFirst, hnodup⟩, -, hlast⟩ := hnodup
  -- the texts of the members, the last one apart
  set tail := 44 :: 34 :: (keyAndValue (last.key, v) ++ 125 :: rest) with htail
  have htext : printMembers ((e :: es).map Prod.fst ++ [(last.key, v)]) ++ 125 :: rest =
      34 :: (keyAndValue e.1 ++ (moreMembers (es.map Prod.fst) ++ tail)) := by
    have hend := moreMembers_cons_append (last.key, v) [] (125 :: rest)
    rw [List.map_cons, List.cons_append, printMembers_cons, printMember_eq, moreMembers_append,
      List.cons_append, List.cons_append, List.append_assoc, List.append_assoc, hend]
    rfl
  have hmember := shapeMember_fits hfirst (find?_key_eq_some Member.key hkeys (hin first (.inl rfl)))
    (fun slot hslot => absurd hslot List.not_mem_nil)
    (delimits_moreMembers_append (es.map Prod.fst) (.comma (34 :: _) : Delimits tail))
  -- none of the members that are read has the key of the last one
  have hread : ∀ slot ∈ (es.map slotOf).reverse ++ [slotOf e], slot.1 ≠ last.key := by
    intro slot hslot
    refine hlast slot.1 ?_ last.key (List.mem_singleton_self _)
    rcases List.mem_append.mp hslot with hslot | hslot
    · obtain ⟨d, hd, rfl⟩ := List.mem_map.mp (List.mem_reverse.mp hslot)
      rw [← keys_of_fits hfits]
      exact List.mem_cons_of_mem _ (List.mem_map_of_mem (f := fun e => e.1.1) hd)
    · rw [List.mem_singleton.mp hslot, slotOf, ← hfirst.key]
      exact List.mem_cons_self ..
  have hlength := length_le_moreMembers hfits
  rw [htext]
  obtain ⟨fuel, hfuel⟩ : ∃ k,
      (34 :: (keyAndValue e.1 ++ (moreMembers (es.map Prod.fst) ++ tail))).length =
        k + 1 + ms.length := by
    refine ⟨(keyAndValue e.1).length + (moreMembers (es.map Prod.fst)).length - ms.length +
      tail.length, ?_⟩
    simp only [List.length_cons, List.length_append]
    omega
  rw [membersFrom_first hmember, hfuel, membersFrom_append hfits (.comma _) (fuel + 1) [slotOf e]
    (fun m hm => hin m (.inr (.inl hm))) hkeys hnodup fun m hm slot hslot => by
      rw [List.mem_singleton.mp hslot, slotOf, ← hfirst.key]
      exact fun heq => hnotFirst (heq ▸ List.mem_map_of_mem hm)]
  exact membersFrom_stop (find?_key_eq_some Member.key hkeys (hin last (.inr (.inr rfl)))) hread hleft
    fuel

/-- **Records that are not read.** An object with the members of a record, in their order, of which the
last one stops its reader. -/
theorem Shape.read_print_stop (hmembers : shape.members = first :: ms ++ [last])
    (hkeys : (shape.members.map Member.key).Nodup) (hfirst : Fits first e)
    (hfits : List.Forall₂ Fits ms es)
    (hstop : ∀ rest, Delimits rest → ∃ left, last.read (print v ++ rest) = .error ⟨reason, left⟩)
    (rest : Bytes) :
    ∃ left, shape.read (print (.object ((e :: es).map Prod.fst ++ [(last.key, v)])) ++ rest) =
      .error ⟨reason, left⟩ := by
  obtain ⟨left, hread⟩ := membersFrom_printMembers_stop hmembers hkeys hfirst hfits hstop rest
  refine ⟨left, ?_⟩
  rw [print_object_append, Shape.read, skipBlanks_cons (by decide)]
  simp only
  rw [if_neg (by decide), if_pos trivial]
  simp only [bind, Except.bind, hread]

end

end Stowage.Json
