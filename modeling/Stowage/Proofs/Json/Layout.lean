import Stowage.Json.Reader
import Stowage.Json.Shape
/-!
# Stowage — what stands in a text that is read

The reader of values, taken apart where it succeeds: which byte a value begins with and what follows it
(`ValueAt`), and how the items of an array and the members of an object follow one another (`ListAt`,
`ObjectAt`). The fuel and the items read so far are gone, so that what another reader does with the same
text can be shown by induction on what stands there. What an item is, is left open.
-/

namespace Stowage.Json

/-- A step that ends well, and what comes after it. -/
theorem bind_eq_ok {ε α β : Type} {first : Except ε α} {next : α → Except ε β} {b : β}
    (h : (first >>= next) = .ok b) : ∃ a, first = .ok a ∧ next a = .ok b := by
  cases first with
  | error e => cases h
  | ok a => exact ⟨a, rfl, h⟩

section

variable {α : Type}

/-- What a reader takes from the front of a text. -/
abbrev Reader.Takes (reader : Reader α) (unread : Bytes) (a : α) (rest : Bytes) : Prop :=
  reader unread = .ok (a, rest)

variable (item : Bytes → α → Bytes → Prop)

/-- Items behind a first one, up to the bracket behind the last. -/
inductive MoreItems : Bytes → List α → Bytes → Prop where
  | close {unread rest : Bytes} (h : skipBlanks unread = 93 :: rest) : MoreItems unread [] rest
  | comma {unread next after rest : Bytes} {v : α} {vs : List α}
      (h : skipBlanks unread = 44 :: next) (hread : item (skipBlanks next) v after)
      (hmore : MoreItems after vs rest) : MoreItems unread (v :: vs) rest

/-- The items of an array, behind its opening bracket. -/
inductive ListAt : Bytes → List α → Bytes → Prop where
  | empty {unread rest : Bytes} (h : skipBlanks unread = 93 :: rest) : ListAt unread [] rest
  | first {unread more after rest : Bytes} {b : UInt8} {v : α} {vs : List α}
      (h : skipBlanks unread = b :: more) (hb : b ≠ 93) (hread : item (b :: more) v after)
      (hmore : MoreItems item after vs rest) : ListAt unread (v :: vs) rest

/-- One member of an object, behind the opening quote of its key. -/
inductive MemberAt : Bytes → String → α → Bytes → Prop where
  | intro {unread mid next rest : Bytes} {key : String} {v : α}
      (hkey : text unread = .ok (key, mid)) (hcolon : colon mid = .ok ((), next))
      (hread : item next v rest) : MemberAt unread key v rest

/-- Members behind a first one, up to the brace behind the last. -/
inductive MoreMembers : Bytes → List (String × α) → Bytes → Prop where
  | close {unread rest : Bytes} (h : skipBlanks unread = 125 :: rest) : MoreMembers unread [] rest
  | comma {unread next inside after rest : Bytes} {key : String} {v : α}
      {ms : List (String × α)} (h : skipBlanks unread = 44 :: next)
      (hquote : skipBlanks next = 34 :: inside) (hmember : MemberAt item inside key v after)
      (hmore : MoreMembers after ms rest) : MoreMembers unread ((key, v) :: ms) rest

/-- The members of an object, behind its opening brace. -/
inductive ObjectAt : Bytes → List (String × α) → Bytes → Prop where
  | empty {unread rest : Bytes} (h : skipBlanks unread = 125 :: rest) : ObjectAt unread [] rest
  | first {unread inside after rest : Bytes} {key : String} {v : α} {ms : List (String × α)}
      (hquote : skipBlanks unread = 34 :: inside) (hmember : MemberAt item inside key v after)
      (hmore : MoreMembers item after ms rest) : ObjectAt unread ((key, v) :: ms) rest

end

section

variable {α : Type} {item : Bytes → α → Bytes → Prop} {P : α → Prop} {unread rest : Bytes} {items : List α}
  {members : List (String × α)}

/-- What holds of whatever is taken holds of every item behind the first. -/
theorem moreItems_forall (hitem : ∀ unread a rest, item unread a rest → P a)
    (h : MoreItems item unread items rest) : ∀ a ∈ items, P a := by
  induction h with
  | close => exact fun a ha => absurd ha List.not_mem_nil
  | comma _ hread _ ih => exact List.forall_mem_cons.mpr ⟨hitem _ _ _ hread, ih⟩

/-- What holds of whatever is taken holds of every item. -/
theorem listAt_forall (hitem : ∀ unread a rest, item unread a rest → P a)
    (h : ListAt item unread items rest) : ∀ a ∈ items, P a := by
  cases h with
  | empty => exact fun a ha => absurd ha List.not_mem_nil
  | first _ _ hread hmore =>
    exact List.forall_mem_cons.mpr ⟨hitem _ _ _ hread, moreItems_forall hitem hmore⟩

theorem moreMembers_forall (hitem : ∀ unread a rest, item unread a rest → P a)
    (h : MoreMembers item unread members rest) : ∀ m ∈ members, P m.2 := by
  induction h with
  | close => exact fun m hm => absurd hm List.not_mem_nil
  | comma _ _ hmember _ ih =>
    obtain ⟨-, -, hread⟩ := hmember
    exact List.forall_mem_cons.mpr ⟨hitem _ _ _ hread, ih⟩

/-- What holds of whatever is taken holds of every member. -/
theorem objectAt_forall (hitem : ∀ unread a rest, item unread a rest → P a)
    (h : ObjectAt item unread members rest) : ∀ m ∈ members, P m.2 := by
  cases h with
  | empty => exact fun m hm => absurd hm List.not_mem_nil
  | first _ hmember hmore =>
    obtain ⟨-, -, hread⟩ := hmember
    exact List.forall_mem_cons.mpr ⟨hitem _ _ _ hread, moreMembers_forall hitem hmore⟩

end

/-- `ValueAt inner b bytes v rest`: a value begins with the byte `b`, goes on with `bytes` and leaves
`rest`. -/
inductive ValueAt (inner : Option (Reader Json)) : UInt8 → Bytes → Json → Bytes → Prop where
  | null {bytes rest : Bytes} (h : word (utf8 "ull") bytes = .ok ((), rest)) :
      ValueAt inner 110 bytes .null rest
  | true {bytes rest : Bytes} (h : word (utf8 "rue") bytes = .ok ((), rest)) :
      ValueAt inner 116 bytes (.bool true) rest
  | false {bytes rest : Bytes} (h : word (utf8 "alse") bytes = .ok ((), rest)) :
      ValueAt inner 102 bytes (.bool false) rest
  | minus {bytes rest : Bytes} {n : Number} (h : unsignedNumber true bytes = .ok (n, rest)) :
      ValueAt inner 45 bytes (.number n) rest
  | digit {b : UInt8} {bytes rest : Bytes} {n : Number} (hb : isDigit b = true)
      (h : unsignedNumber false (b :: bytes) = .ok (n, rest)) :
      ValueAt inner b bytes (.number n) rest
  | string {bytes rest : Bytes} {s : String} (h : text bytes = .ok (s, rest)) :
      ValueAt inner 34 bytes (.string s) rest
  | array {item : Reader Json} {bytes rest : Bytes} {values : List Json} (hinner : inner = some item)
      (h : ListAt item.Takes bytes values rest) : ValueAt inner 91 bytes (.array values) rest
  | object {item : Reader Json} {bytes rest : Bytes} {pairs : List (String × Json)}
      (hinner : inner = some item) (h : ObjectAt item.Takes bytes pairs rest) :
      ValueAt inner 123 bytes (.object (Members.ofList pairs)) rest

section

variable {item : Reader Json}

/-- The items that are read stand one behind the other. Induction on the fuel; the items before are at
the end of the accumulator. -/
theorem moreItems_of_itemsOnto :
    ∀ {fuel : Nat} {acc values : List Json} {unread rest : Bytes},
      itemsOnto item fuel acc unread = .ok (values, rest) →
        ∃ vs, values = acc.reverse ++ vs ∧ MoreItems item.Takes unread vs rest := by
  -- induction on the fuel; the ways through the reader that end well are a bracket and a comma
  intro fuel
  induction fuel with
  | zero => exact fun h => nomatch h
  | succ fuel ih =>
    intro acc values unread rest h
    rw [itemsOnto] at h
    split at h
    · cases h
    · next heq =>
      cases h
      exact ⟨[], (List.append_nil _).symm, .close heq⟩
    · next next heq =>
      split at h
      · cases h
      · cases h
      · split at h
        · cases h
        · next v after hread =>
          obtain ⟨vs, rfl, hmore⟩ := ih h
          refine ⟨v :: vs, by rw [List.reverse_cons, List.append_assoc]; rfl, .comma heq ?_ hmore⟩
          exact hread
    · cases h

/-- The items of an array that is read stand in its text. -/
theorem listAt_of_items {unread rest : Bytes} {values : List Json}
    (h : items item unread = .ok (values, rest)) : ListAt item.Takes unread values rest := by
  -- the ways through the reader that end well are a bracket and a first item
  rw [items] at h
  split at h
  · cases h
  · next heq =>
    cases h
    exact .empty heq
  · next hnil hbracket =>
    split at h
    · cases h
    · next v after hread =>
      obtain ⟨vs, rfl, hmore⟩ := moreItems_of_itemsOnto h
      cases hunread : skipBlanks unread with
      | nil => exact absurd hunread hnil
      | cons b more =>
        rw [hunread] at hread
        refine .first hunread ?_ hread hmore
        rintro rfl
        exact hbracket more hunread

/-- A member that is read is a key, a colon and a value. -/
theorem memberAt_of_member {unread rest : Bytes} {m : String × Json}
    (h : member item unread = .ok (m, rest)) : MemberAt item.Takes unread m.1 m.2 rest := by
  rw [member] at h
  obtain ⟨⟨key, behind⟩, hkey, h⟩ := bind_eq_ok h
  obtain ⟨⟨⟨⟩, next⟩, hcolon, h⟩ := bind_eq_ok h
  obtain ⟨⟨v, left⟩, hread, h⟩ := bind_eq_ok h
  cases h
  exact .intro hkey hcolon hread

/-- The members that are read stand one behind the other. Induction on the fuel. -/
theorem moreMembers_of_membersOnto :
    ∀ {fuel : Nat} {acc pairs : List (String × Json)} {unread rest : Bytes},
      membersOnto item fuel acc unread = .ok (pairs, rest) →
        ∃ ms, pairs = acc.reverse ++ ms ∧ MoreMembers item.Takes unread ms rest := by
  -- induction on the fuel; the ways through the reader that end well are a brace and a comma
  intro fuel
  induction fuel with
  | zero => exact fun h => nomatch h
  | succ fuel ih =>
    intro acc pairs unread rest h
    rw [membersOnto] at h
    split at h
    · cases h
    · next heq =>
      cases h
      exact ⟨[], (List.append_nil _).symm, .close heq⟩
    · next next heq =>
      split at h
      · cases h
      · next inside hquote =>
        split at h
        · cases h
        · next m after hread =>
          obtain ⟨ms, rfl, hmore⟩ := ih h
          exact ⟨m :: ms, by rw [List.reverse_cons, List.append_assoc]; rfl,
            .comma heq hquote (memberAt_of_member hread) hmore⟩
      · cases h
      · cases h
    · cases h

/-- The members of an object that is read stand in its text. -/
theorem objectAt_of_members {unread rest : Bytes} {pairs : List (String × Json)}
    (h : members item unread = .ok (pairs, rest)) : ObjectAt item.Takes unread pairs rest := by
  rw [members] at h
  split at h
  · cases h
  · next heq =>
    cases h
    exact .empty heq
  · next inside hquote =>
    split at h
    · cases h
    · next m after hread =>
      obtain ⟨ms, rfl, hmore⟩ := moreMembers_of_membersOnto h
      exact .first hquote (memberAt_of_member hread) hmore
  · cases h

end

/-- **What was read** began with some byte, which decides what followed. -/
theorem valueAt_of_valueWith {inner : Option (Reader Json)} {unread rest : Bytes} {v : Json}
    (h : valueWith inner unread = .ok (v, rest)) :
    ∃ b bytes, skipBlanks unread = b :: bytes ∧ ValueAt inner b bytes v rest := by
  rw [valueWith] at h
  split at h
  · cases h
  · next b bytes hunread =>
    refine ⟨b, bytes, hunread, ?_⟩
    by_cases hnull : b = 110
    · rw [if_pos hnull] at h
      obtain ⟨⟨⟨⟩, left⟩, hword, h⟩ := bind_eq_ok h
      cases h
      exact hnull ▸ .null hword
    rw [if_neg hnull] at h
    by_cases htrue : b = 116
    · rw [if_pos htrue] at h
      obtain ⟨⟨⟨⟩, left⟩, hword, h⟩ := bind_eq_ok h
      cases h
      exact htrue ▸ .true hword
    rw [if_neg htrue] at h
    by_cases hfalse : b = 102
    · rw [if_pos hfalse] at h
      obtain ⟨⟨⟨⟩, left⟩, hword, h⟩ := bind_eq_ok h
      cases h
      exact hfalse ▸ .false hword
    rw [if_neg hfalse] at h
    by_cases hminus : b = 45
    · rw [if_pos hminus] at h
      obtain ⟨⟨n, left⟩, hread, h⟩ := bind_eq_ok h
      cases h
      exact hminus ▸ .minus hread
    rw [if_neg hminus] at h
    by_cases hdigit : isDigit b
    · rw [if_pos hdigit] at h
      obtain ⟨⟨n, left⟩, hread, h⟩ := bind_eq_ok h
      cases h
      exact .digit hdigit hread
    rw [if_neg hdigit] at h
    by_cases hquote : b = 34
    · rw [if_pos hquote] at h
      obtain ⟨⟨s, left⟩, hread, h⟩ := bind_eq_ok h
      cases h
      exact hquote ▸ .string hread
    rw [if_neg hquote] at h
    by_cases hbracket : b = 91
    · rw [if_pos hbracket] at h
      cases inner with
      | none => cases h
      | some item =>
        obtain ⟨⟨vs, left⟩, hread, h⟩ := bind_eq_ok h
        cases h
        exact hbracket ▸ .array rfl (listAt_of_items hread)
    rw [if_neg hbracket] at h
    by_cases hbrace : b = 123
    · rw [if_pos hbrace] at h
      cases inner with
      | none => cases h
      | some item =>
        obtain ⟨⟨ms, left⟩, hread, h⟩ := bind_eq_ok h
        cases h
        exact hbrace ▸ .object rfl (objectAt_of_members hread)
    rw [if_neg hbrace] at h
    cases h

/-! ## The equations of the readers

The other way round: where it is known what stands in the text, each reader takes one step, and its fuel
goes down by one. -/

section

variable {item : Reader Json} {unread next more inside : Bytes} {b : UInt8}

/-- Behind a comma, an item is read. -/
theorem itemsOnto_next (h : skipBlanks unread = 44 :: next) (hnext : skipBlanks next = b :: more)
    (hb : b ≠ 93) (fuel : Nat) (acc : List Json) :
    itemsOnto item (fuel + 1) acc unread =
      item (b :: more) >>= fun read => itemsOnto item fuel (read.1 :: acc) read.2 := by
  rw [itemsOnto, h]
  simp only [hnext]
  split
  · next heq => cases heq
  · next heq => exact absurd (List.cons.inj heq).1 hb
  · cases item (b :: more) <;> rfl

/-- Behind the bracket, the first item is read. -/
theorem items_next (h : skipBlanks unread = b :: more) (hb : b ≠ 93) : items item unread =
    item (b :: more) >>= fun read => itemsOnto item read.2.length.succ [read.1] read.2 := by
  rw [items, h]
  split
  · next heq => cases heq
  · next heq => exact absurd (List.cons.inj heq).1 hb
  · cases item (b :: more) <;> rfl

/-- Behind a comma and a quote, a member is read. -/
theorem membersOnto_next (h : skipBlanks unread = 44 :: next) (hquote : skipBlanks next = 34 :: inside)
    (fuel : Nat) (acc : List (String × Json)) :
    membersOnto item (fuel + 1) acc unread =
      member item inside >>= fun read => membersOnto item fuel (read.1 :: acc) read.2 := by
  rw [membersOnto, h]
  simp only [hquote]
  cases member item inside <;> rfl

/-- Behind the brace and a quote, the first member is read. -/
theorem members_next (hquote : skipBlanks unread = 34 :: inside) :
    members item unread = member item inside >>= fun read =>
      membersOnto item read.2.length.succ [read.1] read.2 := by
  rw [members, hquote]
  simp only
  cases member item inside <;> rfl

end

/-! ## Whole texts

Where and why a reader stops matters little for what a text is, so a reader is often asked for what it
gives if it does not stop (`Except.toOption`). -/

section

variable {α β ε : Type}

@[simp]
theorem toOption_ok (a : α) : (.ok a : Except ε α).toOption = some a := rfl

theorem ok_of_toOption {x : Except ε α} {a : α} (h : x.toOption = some a) : x = .ok a := by
  cases x with
  | error e => cases h
  | ok b =>
    cases h
    rfl

theorem toOption_bind (x : Except ε α) (f : α → Except ε β) :
    (x >>= f).toOption = x.toOption.bind fun a => (f a).toOption := by
  cases x <;> rfl

theorem toOption_map (f : α → β) (x : Except ε α) : (x.map f).toOption = x.toOption.map f := by
  cases x <;> rfl

theorem toOption_finish (read : α × Bytes) :
    (finish read).toOption = if skipBlanks read.2 = [] then some read.1 else none := by
  rw [finish]
  cases skipBlanks read.2 <;> rfl

/-- A whole text is read if only blanks are left. -/
theorem toOption_readWith (reader : Reader α) (whole : Bytes) :
    (readWith reader whole).toOption =
      (reader whole).toOption.bind fun read =>
        if skipBlanks read.2 = [] then some read.1 else none := by
  have hrun : (readWith reader whole).toOption = (reader whole >>= finish).toOption := by
    rw [readWith]
    show _ = ((reader whole).bind finish).toOption
    cases (reader whole).bind finish <;> rfl
  simp only [hrun, toOption_bind, toOption_finish]

end

/-- A text is a value if the value is read and only blanks are left. -/
theorem read?_eq_some_iff {whole : Bytes} {v : Json} :
    read? whole = some v ↔
      ∃ rest, value maxDepth whole = .ok (v, rest) ∧ skipBlanks rest = [] := by
  rw [read?, read, toOption_readWith]
  cases value maxDepth whole with
  | error stop =>
    refine ⟨nofun, ?_⟩
    rintro ⟨_, ⟨⟩, -⟩
  | ok result =>
    constructor
    · intro h
      obtain ⟨hend, hv⟩ := Option.ite_none_right_eq_some.mp h
      cases hv
      exact ⟨result.2, rfl, hend⟩
    · rintro ⟨_, hresult, hend⟩
      cases hresult
      exact if_pos hend

end Stowage.Json
