import Stowage.Proofs.Json.Extent
import Stowage.Proofs.Json.RoundTrip
import Stowage.Proofs.Json.Skip
import Stowage.Proofs.Json.Tree
/-!
# Stowage — how a value is spelled

A text spells a tree of numerals: what it says before any number is read (`Spelled`). It spells one at most
(`Spelled.unique`), and every value that is read is spelled (`exists_spelled`). Strings are spelled as they
are read.
-/

namespace Stowage.Json

/-- What begins with the byte `b`, goes on with `bytes` and leaves `rest`. The first byte decides what it
is. Behind a numeral no more of a number can stand. -/
def SpelledFrom (inner : Option (Bytes → Tree Numeral → Bytes → Prop)) (b : UInt8) (bytes : Bytes)
    (t : Tree Numeral) (rest : Bytes) : Prop :=
  if b = 110 then word (utf8 "ull") bytes = .ok ((), rest) ∧ t = .null
  else if b = 116 then word (utf8 "rue") bytes = .ok ((), rest) ∧ t = .bool true
  else if b = 102 then word (utf8 "alse") bytes = .ok ((), rest) ∧ t = .bool false
  else if b = 45 ∨ isDigit b then
    ∃ n : Numeral, n.WellFormed ∧ Delimits rest ∧ b :: bytes = n.text ++ rest ∧ t = .number n
  else if b = 34 then ∃ s, text bytes = .ok (s, rest) ∧ t = .string s
  else if b = 91 then ∃ item ts, inner = some item ∧ ListAt item bytes ts rest ∧ t = .array ts
  else if b = 123 then ∃ item ms, inner = some item ∧ ObjectAt item bytes ms rest ∧ t = .object ms
  else False

/-- `Spelled depth unread t rest`: a tree of at most this depth is spelled in front of `rest`. -/
def Spelled : Nat → Bytes → Tree Numeral → Bytes → Prop
  | 0, unread, t, rest => ∃ b bytes, skipBlanks unread = b :: bytes ∧ SpelledFrom none b bytes t rest
  | depth + 1, unread, t, rest =>
    ∃ b bytes, skipBlanks unread = b :: bytes ∧ SpelledFrom (some (Spelled depth)) b bytes t rest

/-- A whole text spells a tree. -/
def Spells (whole : Bytes) (t : Tree Numeral) : Prop :=
  ∃ depth rest, Spelled depth whole t rest ∧ skipBlanks rest = []

/-- What stands inside the arrays and objects of a depth. -/
def innerSpelled : Nat → Option (Bytes → Tree Numeral → Bytes → Prop)
  | 0 => none
  | depth + 1 => some (Spelled depth)

/-- What is spelled begins with a byte that is not blank, at every depth. -/
theorem spelled_iff {depth : Nat} {unread rest : Bytes} {t : Tree Numeral} :
    Spelled depth unread t rest ↔
      ∃ b bytes, skipBlanks unread = b :: bytes ∧ SpelledFrom (innerSpelled depth) b bytes t rest := by
  cases depth <;> rfl

/-! ## One tree

Nothing that is spelled can be taken apart in two ways. The first byte decides what is spelled, and for
arrays and objects the next item or the end decides what follows. -/

section

variable {α : Type} {item other : Bytes → α → Bytes → Prop} {unread rest rest' : Bytes}

/-- `Agree item other`: from the same bytes, the two take the same and leave the same. -/
def Agree (item other : Bytes → α → Bytes → Prop) : Prop :=
  ∀ unread a b rest rest', item unread a rest → other unread b rest' → a = b ∧ rest = rest'

theorem head_unique {b c : UInt8} {bytes others : Bytes} (h : skipBlanks unread = b :: bytes)
    (h' : skipBlanks unread = c :: others) : b = c ∧ bytes = others :=
  List.cons.inj (h.symm.trans h')

theorem ok_unique {β : Type} {x : Except Stop (β × Bytes)} {a b : β} (h : x = .ok (a, rest))
    (h' : x = .ok (b, rest')) : a = b ∧ rest = rest' := by
  cases h.symm.trans h'
  exact ⟨rfl, rfl⟩

/-- There is one way to go on behind an item. Induction on what stands there. -/
theorem moreItems_unique (hitem : Agree item other) {xs ys : List α} (h : MoreItems item unread xs rest)
    (h' : MoreItems other unread ys rest') : xs = ys ∧ rest = rest' := by
  induction h generalizing ys rest' with
  | close h =>
    cases h' with
    | close h' => exact ⟨rfl, (head_unique h h').2⟩
    | comma h' => exact absurd (head_unique h h').1 (by decide)
  | comma h hread _ ih =>
    cases h' with
    | close h' => exact absurd (head_unique h h').1 (by decide)
    | comma h' hread' hmore' =>
      obtain ⟨-, rfl⟩ := head_unique h h'
      obtain ⟨rfl, rfl⟩ := hitem _ _ _ _ _ hread hread'
      obtain ⟨rfl, rfl⟩ := ih hmore'
      exact ⟨rfl, rfl⟩

theorem listAt_unique (hitem : Agree item other) {xs ys : List α} (h : ListAt item unread xs rest)
    (h' : ListAt other unread ys rest') : xs = ys ∧ rest = rest' := by
  cases h with
  | empty h =>
    cases h' with
    | empty h' => exact ⟨rfl, (head_unique h h').2⟩
    | first h' hb' => exact absurd (head_unique h h').1.symm hb'
  | first h hb hread hmore =>
    cases h' with
    | empty h' => exact absurd (head_unique h h').1 hb
    | first h' hb' hread' hmore' =>
      obtain ⟨rfl, rfl⟩ := head_unique h h'
      obtain ⟨rfl, rfl⟩ := hitem _ _ _ _ _ hread hread'
      obtain ⟨rfl, rfl⟩ := moreItems_unique hitem hmore hmore'
      exact ⟨rfl, rfl⟩

theorem memberAt_unique (hitem : Agree item other) {key key' : String} {x y : α}
    (h : MemberAt item unread key x rest) (h' : MemberAt other unread key' y rest') :
    key = key' ∧ x = y ∧ rest = rest' := by
  obtain ⟨hkey, hcolon, hread⟩ := h
  obtain ⟨hkey', hcolon', hread'⟩ := h'
  obtain ⟨rfl, rfl⟩ := ok_unique hkey hkey'
  obtain ⟨-, rfl⟩ := ok_unique hcolon hcolon'
  exact ⟨rfl, hitem _ _ _ _ _ hread hread'⟩

/-- There is one way to go on behind a member. Induction on what stands there. -/
theorem moreMembers_unique (hitem : Agree item other) {xs ys : List (String × α)}
    (h : MoreMembers item unread xs rest) (h' : MoreMembers other unread ys rest') :
    xs = ys ∧ rest = rest' := by
  induction h generalizing ys rest' with
  | close h =>
    cases h' with
    | close h' => exact ⟨rfl, (head_unique h h').2⟩
    | comma h' => exact absurd (head_unique h h').1 (by decide)
  | comma h hquote hmember _ ih =>
    cases h' with
    | close h' => exact absurd (head_unique h h').1 (by decide)
    | comma h' hquote' hmember' hmore' =>
      obtain ⟨-, rfl⟩ := head_unique h h'
      obtain ⟨-, rfl⟩ := head_unique hquote hquote'
      obtain ⟨rfl, rfl, rfl⟩ := memberAt_unique hitem hmember hmember'
      obtain ⟨rfl, rfl⟩ := ih hmore'
      exact ⟨rfl, rfl⟩

theorem objectAt_unique (hitem : Agree item other) {xs ys : List (String × α)}
    (h : ObjectAt item unread xs rest) (h' : ObjectAt other unread ys rest') : xs = ys ∧ rest = rest' := by
  cases h with
  | empty h =>
    cases h' with
    | empty h' => exact ⟨rfl, (head_unique h h').2⟩
    | first h' => exact absurd (head_unique h h').1 (by decide)
  | first h hmember hmore =>
    cases h' with
    | empty h' => exact absurd (head_unique h h').1 (by decide)
    | first h' hmember' hmore' =>
      obtain ⟨-, rfl⟩ := head_unique h h'
      obtain ⟨rfl, rfl, rfl⟩ := memberAt_unique hitem hmember hmember'
      obtain ⟨rfl, rfl⟩ := moreMembers_unique hitem hmore hmore'
      exact ⟨rfl, rfl⟩

end

section

variable {depth deeper : Nat} {unread rest rest' : Bytes} {t u : Tree Numeral}

/-- One case for each way in which a value can begin. -/
theorem spelledFrom_unique {inner outer : Option (Bytes → Tree Numeral → Bytes → Prop)} {b : UInt8}
    {bytes : Bytes} (hitem : ∀ item other, inner = some item → outer = some other → Agree item other)
    (h : SpelledFrom inner b bytes t rest) (h' : SpelledFrom outer b bytes u rest') :
    t = u ∧ rest = rest' := by
  unfold SpelledFrom at h h'
  -- the first byte is the same, so both go by the same case
  split_ifs at h h'
  · obtain ⟨hword, rfl⟩ := h
    obtain ⟨hword', rfl⟩ := h'
    exact ⟨rfl, (ok_unique hword hword').2⟩
  · obtain ⟨hword, rfl⟩ := h
    obtain ⟨hword', rfl⟩ := h'
    exact ⟨rfl, (ok_unique hword hword').2⟩
  · obtain ⟨hword, rfl⟩ := h
    obtain ⟨hword', rfl⟩ := h'
    exact ⟨rfl, (ok_unique hword hword').2⟩
  · obtain ⟨n, hn, hrest, htext, rfl⟩ := h
    obtain ⟨m, hm, hrest', htext', rfl⟩ := h'
    obtain ⟨rfl, rfl⟩ := Numeral.unique hn hm hrest hrest' (htext.symm.trans htext')
    exact ⟨rfl, rfl⟩
  · obtain ⟨s, htext, rfl⟩ := h
    obtain ⟨s', htext', rfl⟩ := h'
    obtain ⟨rfl, rfl⟩ := ok_unique htext htext'
    exact ⟨rfl, rfl⟩
  · obtain ⟨item, ts, hinner, hlist, rfl⟩ := h
    obtain ⟨other, us, houter, hlist', rfl⟩ := h'
    obtain ⟨rfl, rfl⟩ := listAt_unique (hitem item other hinner houter) hlist hlist'
    exact ⟨rfl, rfl⟩
  · obtain ⟨item, ts, hinner, hobject, rfl⟩ := h
    obtain ⟨other, us, houter, hobject', rfl⟩ := h'
    obtain ⟨rfl, rfl⟩ := objectAt_unique (hitem item other hinner houter) hobject hobject'
    exact ⟨rfl, rfl⟩

/-- **One tree**: what is spelled in one place is spelled there in no other way, however deep. -/
theorem Spelled.unique (h : Spelled depth unread t rest) (h' : Spelled deeper unread u rest') :
    t = u ∧ rest = rest' := by
  induction depth generalizing deeper unread rest rest' t u with
  | zero =>
    obtain ⟨b, bytes, hb, hfrom⟩ := spelled_iff.mp h
    obtain ⟨c, others, hc, hfrom'⟩ := spelled_iff.mp h'
    obtain ⟨rfl, rfl⟩ := head_unique hb hc
    exact spelledFrom_unique (fun _ _ hnone => by cases hnone) hfrom hfrom'
  | succ depth ih =>
    obtain ⟨b, bytes, hb, hfrom⟩ := spelled_iff.mp h
    obtain ⟨c, others, hc, hfrom'⟩ := spelled_iff.mp h'
    obtain ⟨rfl, rfl⟩ := head_unique hb hc
    refine spelledFrom_unique ?_ hfrom hfrom'
    rintro item other hitem hother unread a b rest rest' h h'
    cases deeper with
    | zero => cases hother
    | succ deeper =>
      cases hitem
      cases hother
      exact ih h h'

/-- What is spelled is no array and no object, or its items or members are spelled one depth less. -/
theorem spelledFrom_cases {inner : Option (Bytes → Tree Numeral → Bytes → Prop)} {b : UInt8}
    {bytes : Bytes} (h : SpelledFrom inner b bytes t rest) :
    (t.depth = 0 ∧ ∀ n ∈ t.numbers, n.WellFormed) ∨
      (∃ item ts, inner = some item ∧ ListAt item bytes ts rest ∧ t = .array ts) ∨
      ∃ item ms, inner = some item ∧ ObjectAt item bytes ms rest ∧ t = .object ms := by
  unfold SpelledFrom at h
  split_ifs at h
  · exact .inl (by simp [h.2, Tree.depth, Tree.numbers])
  · exact .inl (by simp [h.2, Tree.depth, Tree.numbers])
  · exact .inl (by simp [h.2, Tree.depth, Tree.numbers])
  · obtain ⟨n, hn, -, -, rfl⟩ := h
    exact .inl (by simpa [Tree.depth, Tree.numbers] using hn)
  · obtain ⟨s, -, rfl⟩ := h
    exact .inl (by simp [Tree.depth, Tree.numbers])
  · exact .inr (.inl h)
  · exact .inr (.inr h)

/-- A tree is no deeper than it is spelled. -/
theorem Spelled.depth_le (h : Spelled depth unread t rest) : t.depth ≤ depth := by
  induction depth generalizing unread rest t with
  | zero =>
    obtain ⟨b, bytes, -, hfrom⟩ := spelled_iff.mp h
    rcases spelledFrom_cases hfrom with ⟨hzero, -⟩ | ⟨item, ts, hinner, -⟩ | ⟨item, ms, hinner, -⟩
    · exact Nat.le_of_eq hzero
    · cases hinner
    · cases hinner
  | succ depth ih =>
    obtain ⟨b, bytes, -, hfrom⟩ := spelled_iff.mp h
    rcases spelledFrom_cases hfrom with ⟨hzero, -⟩ | ⟨item, ts, hinner, hlist, rfl⟩ |
      ⟨item, ms, hinner, hobject, rfl⟩
    · omega
    · cases hinner
      exact Tree.depth_array_le.mpr (listAt_forall (fun _ _ _ h => ih h) hlist)
    · cases hinner
      exact Tree.depth_object_le.mpr (objectAt_forall (fun _ _ _ h => ih h) hobject)

/-- Every numeral that is spelled is well-formed. -/
theorem Spelled.wellFormed (h : Spelled depth unread t rest) : ∀ n ∈ t.numbers, n.WellFormed := by
  induction depth generalizing unread rest t with
  | zero =>
    obtain ⟨b, bytes, -, hfrom⟩ := spelled_iff.mp h
    rcases spelledFrom_cases hfrom with ⟨-, hall⟩ | ⟨item, ts, hinner, -⟩ | ⟨item, ms, hinner, -⟩
    · exact hall
    · cases hinner
    · cases hinner
  | succ depth ih =>
    obtain ⟨b, bytes, -, hfrom⟩ := spelled_iff.mp h
    rcases spelledFrom_cases hfrom with ⟨-, hall⟩ | ⟨item, ts, hinner, hlist, rfl⟩ |
      ⟨item, ms, hinner, hobject, rfl⟩
    · exact hall
    · cases hinner
      simp only [Tree.numbers, List.mem_flatMap]
      rintro n ⟨t, ht, hn⟩
      exact listAt_forall (fun _ _ _ h => ih h) hlist t ht n hn
    · cases hinner
      simp only [Tree.numbers, List.mem_flatMap]
      rintro n ⟨m, hm, hn⟩
      exact objectAt_forall (fun _ _ _ h => ih h) hobject m hm n hn

end

/-! ## What is read is spelled

A reader only takes what is spelled somewhere in the text. A number needs more than that: no more of a
number may follow, and it is the next comma, bracket or brace that shows it. -/

section

/-- `Finds item spelled`: wherever the reader takes something, and no more of a number can follow, a tree
is spelled. -/
def Finds (item : Reader Json) (spelled : Bytes → Tree Numeral → Bytes → Prop) : Prop :=
  ∀ unread v rest, item unread = .ok (v, rest) → Delimits rest → ∃ t, spelled unread t rest

variable {item : Reader Json} {spelled : Bytes → Tree Numeral → Bytes → Prop} {unread rest : Bytes}

theorem Delimits.blank {c : UInt8} (h : isBlank c = true) (rest : Bytes) : Delimits (c :: rest) := by
  have hc : c = 32 ∨ c = 9 ∨ c = 10 ∨ c = 13 := of_decide_eq_true h
  refine .cons ?_ ?_ rest
  · obtain rfl | rfl | rfl | rfl := hc <;> decide
  · obtain rfl | rfl | rfl | rfl := hc <;> decide

/-- A blank or what goes on behind a value is no more of a number. -/
theorem delimits_of_skipBlanks {b : UInt8} {more : Bytes} (h : skipBlanks unread = b :: more)
    (hdigit : isDigit b = false) (hb : b ≠ 101 ∧ b ≠ 69 ∧ b ≠ 46) : Delimits unread := by
  cases unread with
  | nil => cases h
  | cons c unread =>
    by_cases hblank : isBlank c = true
    · exact .blank hblank unread
    · rw [skipBlanks_cons (Bool.eq_false_iff.mpr hblank)] at h
      rw [(List.cons.inj h).1]
      exact .cons hdigit hb unread

/-- Nothing but blanks is no more of a number. -/
theorem delimits_of_end (h : skipBlanks unread = []) : Delimits unread := by
  cases unread with
  | nil => exact .nil
  | cons c unread =>
    by_cases hblank : isBlank c = true
    · exact .blank hblank unread
    · rw [skipBlanks_cons (Bool.eq_false_iff.mpr hblank)] at h
      cases h

/-- What follows an item is no more of a number. -/
theorem delimits_of_moreItems {α : Type} {item : Bytes → α → Bytes → Prop} {xs : List α}
    (h : MoreItems item unread xs rest) : Delimits unread := by
  cases h with
  | close h => exact delimits_of_skipBlanks h (by decide) (by decide)
  | comma h => exact delimits_of_skipBlanks h (by decide) (by decide)

/-- What follows a member is no more of a number. -/
theorem delimits_of_moreMembers {α : Type} {item : Bytes → α → Bytes → Prop} {xs : List (String × α)}
    (h : MoreMembers item unread xs rest) : Delimits unread := by
  cases h with
  | close h => exact delimits_of_skipBlanks h (by decide) (by decide)
  | comma h => exact delimits_of_skipBlanks h (by decide) (by decide)

theorem exists_moreItems (hfinds : Finds item spelled) {vs : List Json}
    (h : MoreItems item.Takes unread vs rest) : ∃ ts, MoreItems spelled unread ts rest := by
  induction h with
  | close h => exact ⟨[], .close h⟩
  | comma h hread hmore ih =>
    obtain ⟨t, ht⟩ := hfinds _ _ _ hread (delimits_of_moreItems hmore)
    obtain ⟨ts, hts⟩ := ih
    exact ⟨t :: ts, .comma h ht hts⟩

/-- The items of an array that is read are spelled. -/
theorem exists_listAt (hfinds : Finds item spelled) {vs : List Json}
    (h : ListAt item.Takes unread vs rest) : ∃ ts, ListAt spelled unread ts rest := by
  cases h with
  | empty h => exact ⟨[], .empty h⟩
  | first h hb hread hmore =>
    obtain ⟨t, ht⟩ := hfinds _ _ _ hread (delimits_of_moreItems hmore)
    obtain ⟨ts, hts⟩ := exists_moreItems hfinds hmore
    exact ⟨t :: ts, .first h hb ht hts⟩

theorem exists_memberAt (hfinds : Finds item spelled) {key : String} {v : Json}
    (h : MemberAt item.Takes unread key v rest) (hrest : Delimits rest) :
    ∃ t, MemberAt spelled unread key t rest := by
  obtain ⟨hkey, hcolon, hread⟩ := h
  obtain ⟨t, ht⟩ := hfinds _ _ _ hread hrest
  exact ⟨t, .intro hkey hcolon ht⟩

theorem exists_moreMembers (hfinds : Finds item spelled) {ms : List (String × Json)}
    (h : MoreMembers item.Takes unread ms rest) : ∃ ts, MoreMembers spelled unread ts rest := by
  induction h with
  | close h => exact ⟨[], .close h⟩
  | @comma _ _ _ _ _ key _ _ h hquote hmember hmore ih =>
    obtain ⟨t, ht⟩ := exists_memberAt hfinds hmember (delimits_of_moreMembers hmore)
    obtain ⟨ts, hts⟩ := ih
    exact ⟨(key, t) :: ts, .comma h hquote ht hts⟩

/-- The members of an object that is read are spelled. -/
theorem exists_objectAt (hfinds : Finds item spelled) {ms : List (String × Json)}
    (h : ObjectAt item.Takes unread ms rest) : ∃ ts, ObjectAt spelled unread ts rest := by
  cases h with
  | empty h => exact ⟨[], .empty h⟩
  | @first _ _ _ key _ _ hquote hmember hmore =>
    obtain ⟨t, ht⟩ := exists_memberAt hfinds hmember (delimits_of_moreMembers hmore)
    obtain ⟨ts, hts⟩ := exists_moreMembers hfinds hmore
    exact ⟨(key, t) :: ts, .first hquote ht hts⟩

/-- One case for each way in which a value can begin. -/
theorem exists_spelledFrom {inner : Option (Reader Json)}
    {outer : Option (Bytes → Tree Numeral → Bytes → Prop)} {b : UInt8} {bytes : Bytes} {v : Json}
    (hfinds : ∀ item, inner = some item → ∃ spelled, outer = some spelled ∧ Finds item spelled)
    (h : ValueAt inner b bytes v rest) (hrest : Delimits rest) :
    ∃ t, SpelledFrom outer b bytes t rest := by
  cases h with
  | null h => exact ⟨.null, h, rfl⟩
  | true h => exact ⟨.bool true, h, rfl⟩
  | false h => exact ⟨.bool false, h, rfl⟩
  | minus h =>
    obtain ⟨n, hnegative, hn, hbytes⟩ := exists_numeral h
    refine ⟨.number n, n, hn, hrest, ?_, rfl⟩
    rw [Numeral.text, if_pos hnegative, hbytes, List.cons_append]
  | digit hb h =>
    -- a digit is none of the letters that are asked for first
    obtain ⟨n, hnegative, hn, hbytes⟩ := exists_numeral h
    have hne : ∀ c : UInt8, isDigit c = false → b ≠ c := fun c => ne_of_isDigit hb
    refine ⟨.number n, ?_⟩
    unfold SpelledFrom
    rw [if_neg (hne 110 (by decide)), if_neg (hne 116 (by decide)), if_neg (hne 102 (by decide)),
      if_pos (.inr hb)]
    refine ⟨n, hn, hrest, ?_, rfl⟩
    rw [Numeral.text, if_neg (by rw [hnegative]; decide), hbytes]
  | string h => exact ⟨.string _, _, h, rfl⟩
  | array hinner h =>
    obtain ⟨spelled, houter, hfound⟩ := hfinds _ hinner
    obtain ⟨ts, hts⟩ := exists_listAt hfound h
    exact ⟨.array ts, spelled, ts, houter, hts, rfl⟩
  | object hinner h =>
    obtain ⟨spelled, houter, hfound⟩ := hfinds _ hinner
    obtain ⟨ts, hts⟩ := exists_objectAt hfound h
    exact ⟨.object ts, spelled, ts, houter, hts, rfl⟩

/-- **What is read is spelled**, at the depth of the reader. -/
theorem exists_spelled (depth : Nat) : Finds (value depth) (Spelled depth) := by
  induction depth with
  | zero =>
    intro unread v rest h hrest
    obtain ⟨b, bytes, hb, hat⟩ := valueAt_of_valueWith h
    obtain ⟨t, ht⟩ := exists_spelledFrom (fun _ hnone => by cases hnone) hat hrest
    exact ⟨t, b, bytes, hb, ht⟩
  | succ depth ih =>
    intro unread v rest h hrest
    obtain ⟨b, bytes, hb, hat⟩ := valueAt_of_valueWith h
    obtain ⟨t, ht⟩ := exists_spelledFrom
      (fun item hitem => ⟨Spelled depth, rfl, Option.some_inj.mp hitem ▸ ih⟩) hat hrest
    exact ⟨t, b, bytes, hb, ht⟩

end

end Stowage.Json
