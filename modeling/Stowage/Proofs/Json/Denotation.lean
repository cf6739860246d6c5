import Stowage.Proofs.Json.Reread
import Stowage.Proofs.Json.Spelling
/-!
# Stowage — what a spelled value is read as

What a reader makes of a text depends on nothing but the tree that is spelled: each numeral is read by
itself, and later members replace earlier ones (`readBy_value`). So the numbers of a value are those of the
numerals that are left in its tree (`Tree.settled_read?`), and all of them can be read.
-/

namespace Stowage.Json

mutual

/-- The value that a tree of numerals is read as, if none of them is out of range. -/
def Tree.read? : Tree Numeral → Option Json
  | .null => some .null
  | .bool b => some (.bool b)
  | .number n => n.number?.map Json.number
  | .string s => some (.string s)
  | .array items => (readItems items).map Json.array
  | .object members => (readMembers members).map fun ms => Json.object (Members.ofList ms)

/-- The values of items. -/
def readItems : List (Tree Numeral) → Option (List Json)
  | [] => some []
  | t :: ts => t.read?.bind fun v => (readItems ts).map fun vs => v :: vs

/-- The values of members, those of the same key included. -/
def readMembers : List (String × Tree Numeral) → Option (List (String × Json))
  | [] => some []
  | (key, t) :: ms => t.read?.bind fun v => (readMembers ms).map fun vs => (key, v) :: vs

end

/-- `ReadBy item spelled`: what is spelled is read by the reader, which leaves what follows. Something is
spelled, and it does not start like the end of an array. -/
structure ReadBy (item : Reader Json) (spelled : Bytes → Tree Numeral → Bytes → Prop) : Prop where
  read : ∀ unread t rest, spelled unread t rest →
    (item unread).toOption = t.read?.map fun v => (v, rest)
  length : ∀ unread t rest, spelled unread t rest → rest.length < unread.length
  head : ∀ unread t rest, spelled unread t rest → ∃ b more, skipBlanks unread = b :: more ∧ b ≠ 93

section

variable {item : Reader Json} {spelled : Bytes → Tree Numeral → Bytes → Prop} {unread rest : Bytes}

/-! ## Arrays

The reader of items carries what it has read so far and stops at the first item that it cannot read.
Both sides are compared by what they give if they do not stop, so the order in which items fail does not
matter. -/

/-- The items behind the first are read up to the bracket. Induction on what stands there. -/
theorem toOption_itemsOnto (hitem : ReadBy item spelled) {ts : List (Tree Numeral)}
    (h : MoreItems spelled unread ts rest) : ∀ {fuel : Nat} (acc : List Json), unread.length < fuel →
      (itemsOnto item fuel acc unread).toOption =
        (readItems ts).map fun vs => (acc.reverse ++ vs, rest) := by
  induction h with
  | close h =>
    intro fuel acc hfuel
    obtain ⟨fuel, rfl⟩ : ∃ k, fuel = k + 1 := ⟨fuel - 1, by omega⟩
    rw [itemsOnto, h, readItems, Option.map_some, List.append_nil]
    rfl
  | @comma unread next after rest t ts h hread hmore ih =>
    intro fuel acc hfuel
    obtain ⟨fuel, rfl⟩ : ∃ k, fuel = k + 1 := ⟨fuel - 1, by omega⟩
    have hlength := length_of_skipBlanks h
    have hblanks := length_skipBlanks_le next
    have hshorter := hitem.length _ _ _ hread
    obtain ⟨b, more, hnext, hb⟩ := hitem.head _ _ _ hread
    rw [skipBlanks_skipBlanks] at hnext
    rw [itemsOnto_next h hnext hb, ← hnext, toOption_bind, hitem.read _ _ _ hread, readItems]
    -- if the first item is not read, neither side has anything to give
    cases t.read? with
    | none => rfl
    | some v =>
      have hrest := ih (v :: acc) (show after.length < fuel by omega)
      rw [List.reverse_cons] at hrest
      simp only [Option.map_some, Option.bind_some, hrest, Option.map_map]
      congr 1
      funext vs
      simp

/-- The items of an array are read as the trees that are spelled there. -/
theorem toOption_items (hitem : ReadBy item spelled) {ts : List (Tree Numeral)}
    (h : ListAt spelled unread ts rest) :
    (items item unread).toOption = (readItems ts).map fun vs => (vs, rest) := by
  cases h with
  | empty h =>
    rw [items, h]
    rfl
  | @first more after _ b t ts h hb hread hmore =>
    rw [items_next h hb, toOption_bind, hitem.read _ _ _ hread, readItems]
    cases t.read? with
    | none => rfl
    | some v =>
      have hrest := toOption_itemsOnto hitem hmore [v] (Nat.lt_succ_self after.length)
      simp only [Option.map_some, Option.bind_some, hrest, Option.map_map]
      rfl

/-! ## Objects

The same for members. A key is text already when it is spelled, so only the value behind it is still to
be read. -/

/-- A member is read with the key that is spelled and the value that its tree is read as. -/
theorem toOption_member (hitem : ReadBy item spelled) {key : String} {t : Tree Numeral}
    (h : MemberAt spelled unread key t rest) :
    (member item unread).toOption = t.read?.map fun v => ((key, v), rest) := by
  obtain ⟨hkey, hcolon, hread⟩ := h
  rw [member, toOption_bind, hkey, toOption_ok, Option.bind_some, toOption_bind, hcolon, toOption_ok,
    Option.bind_some, toOption_bind, hitem.read _ _ _ hread]
  cases t.read? <;> rfl

/-- The members behind the first are read up to the brace. Induction on what stands there. -/
theorem toOption_membersOnto (hitem : ReadBy item spelled) {ms : List (String × Tree Numeral)}
    (h : MoreMembers spelled unread ms rest) :
    ∀ {fuel : Nat} (acc : List (String × Json)), unread.length < fuel →
      (membersOnto item fuel acc unread).toOption =
        (readMembers ms).map fun vs => (acc.reverse ++ vs, rest) := by
  induction h with
  | close h =>
    intro fuel acc hfuel
    obtain ⟨fuel, rfl⟩ : ∃ k, fuel = k + 1 := ⟨fuel - 1, by omega⟩
    rw [membersOnto, h, readMembers, Option.map_some, List.append_nil]
    rfl
  | @comma unread next inside after rest key t ms h hquote hmember hmore ih =>
    intro fuel acc hfuel
    obtain ⟨fuel, rfl⟩ : ∃ k, fuel = k + 1 := ⟨fuel - 1, by omega⟩
    have hlength := length_of_skipBlanks h
    have hinside := length_of_skipBlanks hquote
    have hshorter := length_memberAt hitem.length hmember
    rw [membersOnto_next h hquote, toOption_bind, toOption_member hitem hmember, readMembers]
    -- if the value is not read, neither side has anything to give
    cases t.read? with
    | none => rfl
    | some v =>
      have hrest := ih ((key, v) :: acc) (show after.length < fuel by omega)
      rw [List.reverse_cons] at hrest
      simp only [Option.map_some, Option.bind_some, hrest, Option.map_map]
      congr 1
      funext vs
      simp

/-- The members of an object are read as the trees that are spelled there, one for each, repeated keys
included. -/
theorem toOption_members (hitem : ReadBy item spelled) {ms : List (String × Tree Numeral)}
    (h : ObjectAt spelled unread ms rest) :
    (members item unread).toOption = (readMembers ms).map fun vs => (vs, rest) := by
  cases h with
  | empty h =>
    rw [members, h]
    rfl
  | @first inside after _ key t ms hquote hmember hmore =>
    rw [members_next hquote, toOption_bind, toOption_member hitem hmember, readMembers]
    cases t.read? with
    | none => rfl
    | some v =>
      have hrest := toOption_membersOnto hitem hmore [(key, v)] (Nat.lt_succ_self after.length)
      simp only [Option.map_some, Option.bind_some, hrest, Option.map_map]
      rfl

/-! ## Values

A value is what its first byte says, and its items are read one level deeper. So the depth of the reader
carries the induction, and the two lists above are its steps. -/

/-- A numeral is read behind its sign, if it has one. -/
theorem valueWith_numeral {inner : Option (Reader Json)} {n : Numeral} (hn : n.WellFormed)
    (h : skipBlanks unread = n.text ++ rest) :
    valueWith inner unread =
      (unsignedNumber n.negative (n.unsigned ++ rest)).map fun read => (.number read.1, read.2) := by
  rw [valueWith, h, Numeral.text]
  cases hnegative : n.negative with
  | true =>
    simp only [if_true, List.cons_append]
    rw [if_neg (by decide), if_neg (by decide), if_neg (by decide)]
    cases unsignedNumber true (n.unsigned ++ rest) <;> rfl
  | false =>
    obtain ⟨d, more, hd, hdigit⟩ := hn.exists_head rest
    have hne : ∀ c : UInt8, isDigit c = false → d ≠ c := fun c => ne_of_isDigit hdigit
    simp only [Bool.false_eq_true, if_false, hd]
    rw [if_neg (hne 110 (by decide)), if_neg (hne 116 (by decide)), if_neg (hne 102 (by decide)),
      if_neg (hne 45 (by decide)), if_pos hdigit]
    cases unsignedNumber false (d :: more) <;> rfl

/-- One case for each way in which a value can begin. -/
theorem toOption_valueWith {inner : Option (Reader Json)}
    {outer : Option (Bytes → Tree Numeral → Bytes → Prop)} {b : UInt8} {bytes : Bytes} {t : Tree Numeral}
    (hitem : ∀ spelled, outer = some spelled → ∃ item, inner = some item ∧ ReadBy item spelled)
    (hb : skipBlanks unread = b :: bytes) (h : SpelledFrom outer b bytes t rest) :
    (valueWith inner unread).toOption = t.read?.map fun v => (v, rest) := by
  unfold SpelledFrom at h
  -- the readers test the first byte in the same order
  split_ifs at h with hnull htrue hfalse hnumber hquote hbracket hbrace
  · obtain ⟨hword, rfl⟩ := h
    rw [valueWith, hb]
    simp only
    rw [if_pos hnull, toOption_bind, hword, Tree.read?]
    rfl
  · obtain ⟨hword, rfl⟩ := h
    rw [valueWith, hb]
    simp only
    rw [if_neg hnull, if_pos htrue, toOption_bind, hword, Tree.read?]
    rfl
  · obtain ⟨hword, rfl⟩ := h
    rw [valueWith, hb]
    simp only
    rw [if_neg hnull, if_neg htrue, if_pos hfalse, toOption_bind, hword, Tree.read?]
    rfl
  · obtain ⟨n, hn, hrest, htext, rfl⟩ := h
    rw [valueWith_numeral hn (hb.trans htext), toOption_map, readsAs_numeral hn rest hrest, Tree.read?,
      Option.map_map, Option.map_map]
    rfl
  -- in the cases that are left, the byte is neither a letter nor the start of a number
  all_goals
    rw [not_or] at hnumber
    rw [valueWith, hb]
    simp only
    rw [if_neg hnull, if_neg htrue, if_neg hfalse, if_neg hnumber.1, if_neg hnumber.2]
  · obtain ⟨s, htext, rfl⟩ := h
    rw [if_pos hquote, toOption_bind, htext, Tree.read?]
    rfl
  · obtain ⟨spelled, ts, houter, hlist, rfl⟩ := h
    obtain ⟨item, rfl, hread⟩ := hitem spelled houter
    rw [if_neg hquote, if_pos hbracket, toOption_bind, toOption_items hread hlist, Tree.read?]
    cases readItems ts <;> rfl
  · obtain ⟨spelled, ms, houter, hobject, rfl⟩ := h
    obtain ⟨item, rfl, hread⟩ := hitem spelled houter
    rw [if_neg hquote, if_neg hbracket, if_pos hbrace, toOption_bind, toOption_members hread hobject,
      Tree.read?]
    cases readMembers ms <;> rfl

end

/-- A value takes at least the byte that it begins with. -/
theorem length_spelledFrom {outer : Option (Bytes → Tree Numeral → Bytes → Prop)} {b : UInt8}
    {bytes rest : Bytes} {t : Tree Numeral}
    (hitem : ∀ spelled, outer = some spelled →
      ∀ unread t rest, spelled unread t rest → rest.length < unread.length)
    (h : SpelledFrom outer b bytes t rest) : rest.length ≤ bytes.length := by
  unfold SpelledFrom at h
  -- letters and digits are at least one byte each, and brackets are not counted here
  split_ifs at h
  · exact length_word h.1
  · exact length_word h.1
  · exact length_word h.1
  · obtain ⟨n, hn, -, htext, -⟩ := h
    have hpos := List.length_pos_iff.mpr hn.text_ne_nil
    have hlength := congrArg List.length htext
    rw [List.length_cons, List.length_append] at hlength
    omega
  · obtain ⟨s, htext, -⟩ := h
    exact (length_skipString (skipString_of_text htext)).le
  · obtain ⟨spelled, ts, houter, hlist, -⟩ := h
    exact (length_listAt (hitem spelled houter) hlist).le
  · obtain ⟨spelled, ms, houter, hobject, -⟩ := h
    exact (length_objectAt (hitem spelled houter) hobject).le

/-- No value begins with the end of an array. -/
theorem spelledFrom_ne_bracket {outer : Option (Bytes → Tree Numeral → Bytes → Prop)} {b : UInt8}
    {bytes rest : Bytes} {t : Tree Numeral} (h : SpelledFrom outer b bytes t rest) : b ≠ 93 := by
  rintro rfl
  simp [SpelledFrom, isDigit] at h

/-- Values are read as their items are. -/
theorem readBy_valueWith {inner : Option (Reader Json)}
    {outer : Option (Bytes → Tree Numeral → Bytes → Prop)}
    (hitem : ∀ spelled, outer = some spelled → ∃ item, inner = some item ∧ ReadBy item spelled) :
    ReadBy (valueWith inner) fun unread t rest =>
      ∃ b bytes, skipBlanks unread = b :: bytes ∧ SpelledFrom outer b bytes t rest where
  read := fun unread t rest ⟨b, bytes, hb, hfrom⟩ => toOption_valueWith hitem hb hfrom
  length := by
    rintro unread t rest ⟨b, bytes, hb, hfrom⟩
    have hlength := length_spelledFrom (fun spelled houter => by
      obtain ⟨item, -, hread⟩ := hitem spelled houter
      exact hread.length) hfrom
    exact Nat.lt_of_le_of_lt hlength (length_of_skipBlanks hb)
  head := fun unread t rest ⟨b, bytes, hb, hfrom⟩ => ⟨b, bytes, hb, spelledFrom_ne_bracket hfrom⟩

/-- **What is read** depends on nothing but what is spelled. Induction on the depth. -/
theorem readBy_value (depth : Nat) : ReadBy (value depth) (Spelled depth) := by
  induction depth with
  | zero => exact readBy_valueWith fun _ hnone => by cases hnone
  | succ depth ih =>
    exact readBy_valueWith fun spelled hsome => ⟨value depth, rfl, Option.some_inj.mp hsome ▸ ih⟩

/-! ## What a tree is read as

Reading turns every numeral into a number and lets later members replace earlier ones. Since it does not
matter which of the two comes first, the numbers that are read are those of the settled tree. -/

theorem readItems_eq_some_iff {ts : List (Tree Numeral)} {vs : List Json} :
    readItems ts = some vs ↔ List.Forall₂ (fun t v => t.read? = some v) ts vs := by
  induction ts generalizing vs with
  | nil =>
    rw [readItems, List.forall₂_nil_left_iff, Option.some_inj, eq_comm]
  | cons t ts ih =>
    rw [readItems, List.forall₂_cons_left_iff]
    simp only [Option.bind_eq_some_iff, Option.map_eq_some_iff]
    constructor
    · rintro ⟨v, hv, ws, hws, rfl⟩
      exact ⟨v, ws, hv, ih.mp hws, rfl⟩
    · rintro ⟨v, ws, hv, hws, rfl⟩
      exact ⟨v, hv, ws, ih.mpr hws, rfl⟩

theorem readMembers_eq_some_iff {ms : List (String × Tree Numeral)} {ns : List (String × Json)} :
    readMembers ms = some ns ↔
      List.Forall₂ (fun m n => m.1 = n.1 ∧ m.2.read? = some n.2) ms ns := by
  induction ms generalizing ns with
  | nil =>
    rw [readMembers, List.forall₂_nil_left_iff, Option.some_inj, eq_comm]
  | cons m ms ih =>
    obtain ⟨key, t⟩ := m
    rw [readMembers, List.forall₂_cons_left_iff]
    simp only [Option.bind_eq_some_iff, Option.map_eq_some_iff]
    constructor
    · rintro ⟨v, hv, ws, hws, rfl⟩
      exact ⟨(key, v), ws, ⟨rfl, hv⟩, ih.mp hws, rfl⟩
    · rintro ⟨⟨key', v⟩, ws, ⟨rfl, hv⟩, hws, rfl⟩
      exact ⟨v, hv, ws, ih.mpr hws, rfl⟩

section

variable {α β γ : Type} {as : List α} {bs : List β}

theorem map_eq_map_of_forall₂ {f : α → γ} {g : β → γ} (h : List.Forall₂ (fun a b => f a = g b) as bs) :
    as.map f = bs.map g := by
  induction h with
  | nil => rfl
  | cons hab _ ih => rw [List.map_cons, List.map_cons, hab, ih]

theorem forall_mem_right {P : β → Prop} (h : List.Forall₂ (fun _ b => P b) as bs) : ∀ b ∈ bs, P b := by
  induction h with
  | nil => exact fun b hb => absurd hb List.not_mem_nil
  | cons hb _ ih => exact List.forall_mem_cons.mpr ⟨hb, ih⟩

end

/-- **The numbers that are read** are those of the numerals that count. -/
theorem Tree.settled_read? (t : Tree Numeral) : ∀ v, t.read? = some v →
    t.settled.map Numeral.number? = (ofJson v).map some := by
  -- induction on the tree; only numbers are looked at, and members are collected on both sides
  induction t with
  | null =>
    rintro _ ⟨⟩
    simp only [settled, ofJson, map]
  | bool b =>
    rintro _ ⟨⟩
    simp only [settled, ofJson, map]
  | number n =>
    intro v h
    obtain ⟨x, hx, rfl⟩ := Option.map_eq_some_iff.mp h
    simp only [settled, ofJson, map, hx]
  | string s =>
    rintro _ ⟨⟩
    simp only [settled, ofJson, map]
  | array items ih =>
    intro v h
    obtain ⟨vs, hvs, rfl⟩ := Option.map_eq_some_iff.mp h
    have hall := (List.forall₂_and_left _ _).mpr ⟨ih, readItems_eq_some_iff.mp hvs⟩
    simp only [settled, ofJson, map, List.map_map]
    exact congrArg _ (map_eq_map_of_forall₂ (hall.imp fun t w hw => hw.1 w hw.2))
  | object members ih =>
    intro v h
    obtain ⟨ns, hns, rfl⟩ := Option.map_eq_some_iff.mp h
    have hall := (List.forall₂_and_left _ _).mpr ⟨ih, readMembers_eq_some_iff.mp hns⟩
    rw [settled_object, ofJson_object, map_object, map_object, Members.ofList_eq_collect, mapMembers_collect,
      mapMembers_collect, mapMembers_collect]
    congr 2
    simp only [mapMembers, List.map_map]
    exact map_eq_map_of_forall₂ (hall.imp fun m n hn => Prod.ext hn.2.1 (hn.1 n.2 hn.2.2))

/-- The numbers that are read can be. -/
theorem Tree.readable_read? (t : Tree Numeral) : ∀ v, t.read? = some v →
    AllNumbers Number.Readable v := by
  -- induction on the tree; a number is what a numeral was read as
  induction t with
  | null =>
    rintro _ ⟨⟩
    exact .null
  | bool b =>
    rintro _ ⟨⟩
    exact .bool b
  | number n =>
    intro v h
    obtain ⟨x, hx, rfl⟩ := Option.map_eq_some_iff.mp h
    exact .number x (Numeral.readable hx)
  | string s =>
    rintro _ ⟨⟩
    exact .string s
  | array items ih =>
    intro v h
    obtain ⟨vs, hvs, rfl⟩ := Option.map_eq_some_iff.mp h
    have hall := (List.forall₂_and_left _ _).mpr ⟨ih, readItems_eq_some_iff.mp hvs⟩
    exact .array vs (forall_mem_right (hall.imp fun t w hw => hw.1 w hw.2))
  | object members ih =>
    intro v h
    obtain ⟨ns, hns, rfl⟩ := Option.map_eq_some_iff.mp h
    have hall := (List.forall₂_and_left _ _).mpr ⟨ih, readMembers_eq_some_iff.mp hns⟩
    refine .object _ fun m hm => ?_
    obtain ⟨p, hp, hvalue⟩ := mem_collect hm
    exact hvalue ▸ forall_mem_right (P := fun n => AllNumbers Number.Readable n.2)
      (hall.imp fun m n hn => hn.1 n.2 hn.2.2) p hp

end Stowage.Json
