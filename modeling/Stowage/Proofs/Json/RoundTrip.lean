import Stowage.Proofs.Json.Printed
import Stowage.Proofs.Json.Text
import Stowage.Proofs.Json.Value
/-!
# Stowage — JSON values read back

The printed text of a value is read back as that value: `value_print` with any continuation that
cannot be taken for more of a number, `read_print` for a whole text. The value has distinct keys,
nests as deep as the reader allows, and its numbers are whole.
-/

namespace Stowage.Json

/-! ## How a value starts

The reader decides by the first byte that is not blank. The printer writes no blanks, and the first byte
of a value is never one that an array or an object could end with. -/

/-- The text of a value starts with no blank, and with nothing that ends or continues an array. -/
theorem print_eq_cons (value : Json) :
    ∃ b more, print value = b :: more ∧ isBlank b = false ∧ b ≠ 93 := by
  cases value with
  | null => exact ⟨110, utf8 "ull", by decide, by decide, by decide⟩
  | bool b =>
    cases b with
    | false => exact ⟨102, utf8 "alse", by decide, by decide, by decide⟩
    | true => exact ⟨116, utf8 "rue", by decide, by decide, by decide⟩
  | number n =>
    obtain ⟨b, more, htext, hdigit | rfl⟩ := n.exists_head
    · exact ⟨b, more, by rw [print, htext], isBlank_of_isDigit hdigit, ne_of_isDigit hdigit (by decide)⟩
    · exact ⟨45, more, by rw [print, htext], by decide, by decide⟩
  | string s =>
    refine ⟨34, Utf8.encode (s.toList.flatMap escape) ++ [34], ?_, by decide, by decide⟩
    rw [print, printString_eq]
  | array items =>
    refine ⟨91, printItems items ++ utf8 "]", ?_, by decide, by decide⟩
    rw [print, show utf8 "[" = [91] from by decide, List.append_assoc, List.singleton_append]
  | object members =>
    refine ⟨123, printMembers members ++ utf8 "\x7d", ?_, by decide, by decide⟩
    rw [print, show utf8 "\x7b" = [123] from by decide, List.append_assoc, List.singleton_append]

theorem skipBlanks_cons {b : UInt8} (hb : isBlank b = false) (rest : Bytes) :
    skipBlanks (b :: rest) = b :: rest := by
  rw [skipBlanks, List.dropWhile_cons, if_neg (by rw [hb]; decide)]

/-- There are no blanks before a printed value. -/
theorem skipBlanks_print (v : Json) (rest : Bytes) : skipBlanks (print v ++ rest) = print v ++ rest := by
  obtain ⟨b, more, hprint, hblank, -⟩ := print_eq_cons v
  rw [hprint, List.cons_append, skipBlanks_cons hblank]

/-! ## Scalars -/

/-- Reading at any depth is reading with some reader for what stands inside, or with none. -/
theorem value_eq (depth : Nat) : ∃ item, value depth = valueWith item := by
  cases depth with
  | zero => exact ⟨none, rfl⟩
  | succ depth => exact ⟨some (value depth), rfl⟩

theorem valueWith_null (item : Option (Reader Json)) (rest : Bytes) :
    valueWith item (utf8 "null" ++ rest) = .ok (.null, rest) := by
  rw [show utf8 "null" = [110, 117, 108, 108] from by decide]
  rfl

theorem valueWith_bool (item : Option (Reader Json)) (b : Bool) (rest : Bytes) :
    valueWith item (print (.bool b) ++ rest) = .ok (.bool b, rest) := by
  cases b with
  | false =>
    rw [print, show utf8 "false" = [102, 97, 108, 115, 101] from by decide]
    rfl
  | true =>
    rw [print, show utf8 "true" = [116, 114, 117, 101] from by decide]
    rfl

theorem valueWith_number (item : Option (Reader Json)) {n : Number} (hn : n.IsWhole) {rest : Bytes}
    (hrest : Delimits rest) :
    valueWith item (print (.number n) ++ rest) = .ok (.number n, rest) := by
  have hspelled := hn.spelled
  rw [print]
  generalize utf8 n.text = bytes at hspelled ⊢
  -- the first byte decides between a number below zero and any other
  cases hspelled with
  | plain b more hdigit hread =>
    have hne : ∀ c : UInt8, isDigit c = false → b ≠ c := fun c => ne_of_isDigit hdigit
    unfold valueWith
    rw [List.cons_append, skipBlanks_cons (isBlank_of_isDigit hdigit)]
    simp only
    rw [if_neg (hne 110 (by decide)), if_neg (hne 116 (by decide)), if_neg (hne 102 (by decide)),
      if_neg (hne 45 (by decide)), if_pos hdigit, hread rest hrest]
    rfl
  | minus more hread =>
    unfold valueWith
    rw [List.cons_append, skipBlanks_cons (by decide)]
    simp only
    rw [if_neg (by decide), if_neg (by decide), if_neg (by decide), if_pos trivial, hread rest hrest]
    rfl

theorem valueWith_string (item : Option (Reader Json)) (s : String) (rest : Bytes) :
    valueWith item (printString s ++ rest) = .ok (.string s, rest) := by
  unfold valueWith
  rw [printString_eq, List.cons_append, skipBlanks_cons (by decide), List.append_assoc,
    List.singleton_append]
  simp only
  rw [if_neg (by decide), if_neg (by decide), if_neg (by decide), if_neg (by decide),
    if_neg (by decide), if_pos trivial, text_printString]
  rfl

/-! ## Arrays

The reader goes from comma to comma and puts items on top of those it has read. The fuel is the number
of bytes that are left, and there are no more items than bytes. -/

/-- The bytes of the items of an array after the first. -/
def moreItems (items : List Json) : Bytes := items.flatMap fun v => 44 :: print v

theorem printItems_cons (v : Json) (items : List Json) :
    printItems (v :: items) = print v ++ moreItems items := by
  induction items generalizing v with
  | nil => rw [printItems, moreItems, List.flatMap_nil, List.append_nil]
  | cons w items ih =>
    have hcomma : utf8 "," = [44] := by decide
    rw [printItems, ih, hcomma, moreItems, moreItems, List.flatMap_cons, List.append_assoc,
      List.singleton_append, List.cons_append]
    exact List.cons_ne_nil w items

/-- `RereadsAs item v w`: the reader reads the text of a value as another one whatever follows it. -/
def RereadsAs (item : Reader Json) (v w : Json) : Prop :=
  ∀ rest, Delimits rest → item (print v ++ rest) = .ok (w, rest)

/-- `Reads item v`: the reader reads a value back whatever follows it. -/
def Reads (item : Reader Json) (v : Json) : Prop := RereadsAs item v v

/-- What follows an item is no more of a number. -/
theorem delimits_moreItems (items : List Json) (rest : Bytes) :
    Delimits (moreItems items ++ 93 :: rest) := by
  cases items with
  | nil => exact .bracket rest
  | cons v items =>
    rw [moreItems, List.flatMap_cons, List.cons_append, List.cons_append]
    exact .comma _

/-- After a comma, an item is read and put on top of the others. -/
theorem itemsOnto_comma (item : Reader Json) (fuel : Nat) (acc : List Json) (v : Json)
    (after : Bytes) :
    itemsOnto item (fuel + 1) acc (44 :: (print v ++ after)) =
      item (print v ++ after) >>= fun read => itemsOnto item fuel (read.1 :: acc) read.2 := by
  -- the item does not start like the end of the array
  obtain ⟨b, more, hprint, -, hbracket⟩ := print_eq_cons v
  have hnext := skipBlanks_print v after
  rw [hprint, List.cons_append] at hnext ⊢
  exact itemsOnto_next (skipBlanks_cons (by decide) _) hnext hbracket fuel acc

/-- The first item is read behind the bracket. -/
theorem items_first (item : Reader Json) (v : Json) (after : Bytes) :
    items item (print v ++ after) = item (print v ++ after) >>= fun read =>
      itemsOnto item read.2.length.succ [read.1] read.2 := by
  obtain ⟨b, more, hprint, -, hbracket⟩ := print_eq_cons v
  have hfirst := skipBlanks_print v after
  rw [hprint, List.cons_append] at hfirst ⊢
  exact items_next hfirst hbracket

theorem moreItems_cons_append (v : Json) (items : List Json) (rest : Bytes) :
    moreItems (v :: items) ++ rest = 44 :: (print v ++ (moreItems items ++ rest)) := by
  rw [moreItems, List.flatMap_cons, List.cons_append, List.cons_append, List.append_assoc]
  rfl

/-- The items after the first are read up to the bracket. Induction on the items. -/
theorem itemsOnto_moreItems {item : Reader Json} {rest : Bytes} :
    ∀ (items : List Json) (fuel : Nat) (acc : List Json),
      (∀ v ∈ items, Reads item v) → (moreItems items ++ 93 :: rest).length ≤ fuel →
        itemsOnto item fuel acc (moreItems items ++ 93 :: rest) = .ok (acc.reverse ++ items, rest) := by
  intro items
  induction items with
  | nil =>
    intro fuel acc hitems hfuel
    obtain ⟨fuel, rfl⟩ : ∃ k, fuel = k + 1 := ⟨fuel - 1, by simp [moreItems] at hfuel; omega⟩
    show itemsOnto item (fuel + 1) acc (93 :: rest) = _
    rw [itemsOnto, skipBlanks_cons (by decide), List.append_nil]
    rfl
  | cons v items ih =>
    intro fuel acc hitems hfuel
    -- the comma is a byte, so there is fuel left for the items behind it
    rw [moreItems_cons_append] at hfuel ⊢
    simp only [List.length_cons, List.length_append] at hfuel
    obtain ⟨fuel, rfl⟩ : ∃ k, fuel = k + 1 := ⟨fuel - 1, by omega⟩
    have hrest := ih fuel (v :: acc) (fun w hw => hitems w (List.mem_cons_of_mem _ hw))
      (by simp only [List.length_append, List.length_cons]; omega)
    rw [itemsOnto_comma, hitems v (List.mem_cons_self ..) _ (delimits_moreItems items rest)]
    refine hrest.trans ?_
    rw [List.reverse_cons, List.append_assoc, List.singleton_append]

/-- The items of an array are read back up to its bracket. -/
theorem items_printItems {item : Reader Json} {values : List Json} (rest : Bytes)
    (hitems : ∀ v ∈ values, Reads item v) :
    items item (printItems values ++ 93 :: rest) = .ok (values, rest) := by
  cases values with
  | nil =>
    rw [printItems, List.nil_append, items, skipBlanks_cons (by decide)]
    rfl
  | cons v values =>
    rw [printItems_cons, List.append_assoc, items_first,
      hitems v (List.mem_cons_self ..) _ (delimits_moreItems values rest)]
    exact itemsOnto_moreItems values _ [v] (fun w hw => hitems w (List.mem_cons_of_mem _ hw))
      (Nat.le_succ _)

theorem print_array_append (values : List Json) (rest : Bytes) :
    print (.array values) ++ rest = 91 :: (printItems values ++ 93 :: rest) := by
  rw [print, show utf8 "[" = [91] from by decide, show utf8 "]" = [93] from by decide]
  simp only [List.append_assoc, List.cons_append, List.nil_append]

theorem valueWith_bracket (item : Reader Json) (rest : Bytes) :
    valueWith (some item) (91 :: rest) =
      (items item rest).map fun read => (.array read.1, read.2) := by
  rw [valueWith, skipBlanks_cons (by decide)]
  cases hread : items item rest with
  | error stop =>
    simp only [bind, Except.bind, hread]
    rfl
  | ok read =>
    simp only [bind, Except.bind, hread]
    rfl

/-! ## Objects

A member is a string, a colon and a value. Members are collected after all of them have been read, which
changes nothing where their keys are distinct. -/

/-- The bytes of a member of an object. -/
def printMember (m : String × Json) : Bytes := printString m.1 ++ 58 :: print m.2

/-- The bytes of the members of an object after the first. -/
def moreMembers (members : Members) : Bytes := members.flatMap fun m => 44 :: printMember m

theorem printMembers_cons (m : String × Json) (members : Members) :
    printMembers (m :: members) = printMember m ++ moreMembers members := by
  have hcolon : utf8 ":" = [58] := by decide
  have hcomma : utf8 "," = [44] := by decide
  induction members generalizing m with
  | nil =>
    rw [printMembers, moreMembers, List.flatMap_nil, List.append_nil, printMember, hcolon,
      List.append_assoc, List.singleton_append]
  | cons n members ih =>
    rw [printMembers, ih, hcomma, hcolon, moreMembers, moreMembers, List.flatMap_cons]
    · simp only [printMember, List.append_assoc, List.cons_append, List.nil_append]
    · exact List.cons_ne_nil n members

/-- What follows a member is no more of a number. -/
theorem delimits_moreMembers_append (members : Members) {rest : Bytes} (h : Delimits rest) :
    Delimits (moreMembers members ++ rest) := by
  cases members with
  | nil => exact h
  | cons m members =>
    rw [moreMembers, List.flatMap_cons, List.cons_append, List.cons_append]
    exact .comma _

theorem delimits_moreMembers (members : Members) (rest : Bytes) :
    Delimits (moreMembers members ++ 125 :: rest) := delimits_moreMembers_append members (.brace rest)

/-- The bytes of a member after the opening quote of its key. -/
def keyAndValue (m : String × Json) : Bytes :=
  Utf8.encode (m.1.toList.flatMap escape) ++ 34 :: 58 :: print m.2

theorem printMember_eq (m : String × Json) : printMember m = 34 :: keyAndValue m := by
  rw [printMember, printString_eq, keyAndValue]
  simp only [List.cons_append, List.append_assoc, List.nil_append]

theorem moreMembers_cons_append (m : String × Json) (members : Members) (rest : Bytes) :
    moreMembers (m :: members) ++ rest =
      44 :: 34 :: (keyAndValue m ++ (moreMembers members ++ rest)) := by
  rw [moreMembers, List.flatMap_cons, printMember_eq, List.cons_append, List.cons_append,
    List.cons_append, List.cons_append, List.append_assoc]
  rfl

theorem moreMembers_append (members others : Members) :
    moreMembers (members ++ others) = moreMembers members ++ moreMembers others :=
  List.flatMap_append

theorem colon_cons (rest : Bytes) : colon (58 :: rest) = .ok ((), rest) := by
  rw [colon, skipBlanks_cons (by decide)]
  rfl

/-- A member is read behind its opening quote: its key, and then its value by the reader of values. -/
theorem member_keyAndValue (item : Reader Json) (m : String × Json) (rest : Bytes) :
    member item (keyAndValue m ++ rest) =
      (item (print m.2 ++ rest)).map fun read => ((m.1, read.1), read.2) := by
  rw [member, keyAndValue, List.append_assoc, List.cons_append, List.cons_append, text_printString]
  simp only [bind, Except.bind, colon_cons]
  cases item (print m.2 ++ rest) <;> rfl

/-- After a comma and a quote, a member is read and put on top of the others. -/
theorem membersOnto_comma (item : Reader Json) (fuel : Nat) (acc : Members) (after : Bytes) :
    membersOnto item (fuel + 1) acc (44 :: 34 :: after) =
      member item after >>= fun read => membersOnto item fuel (read.1 :: acc) read.2 :=
  membersOnto_next (skipBlanks_cons (by decide) _) (skipBlanks_cons (by decide) _) fuel acc

/-- The members after the first are read up to the brace. Induction on the members. -/
theorem membersOnto_moreMembers {item : Reader Json} {rest : Bytes} :
    ∀ (ms : Members) (fuel : Nat) (acc : Members),
      (∀ m ∈ ms, Reads item m.2) → (moreMembers ms ++ 125 :: rest).length ≤ fuel →
        membersOnto item fuel acc (moreMembers ms ++ 125 :: rest) =
          .ok (acc.reverse ++ ms, rest) := by
  intro ms
  induction ms with
  | nil =>
    intro fuel acc hmembers hfuel
    obtain ⟨fuel, rfl⟩ : ∃ k, fuel = k + 1 := ⟨fuel - 1, by simp [moreMembers] at hfuel; omega⟩
    show membersOnto item (fuel + 1) acc (125 :: rest) = _
    rw [membersOnto, skipBlanks_cons (by decide), List.append_nil]
    rfl
  | cons m ms ih =>
    intro fuel acc hmembers hfuel
    have hvalue := hmembers m (List.mem_cons_self ..) _ (delimits_moreMembers ms rest)
    -- the comma is a byte, so there is fuel left for the members behind it
    rw [moreMembers_cons_append] at hfuel ⊢
    simp only [List.length_cons, List.length_append] at hfuel
    obtain ⟨fuel, rfl⟩ : ∃ k, fuel = k + 1 := ⟨fuel - 1, by omega⟩
    have hrest := ih fuel (m :: acc) (fun n hn => hmembers n (List.mem_cons_of_mem _ hn))
      (by simp only [List.length_append, List.length_cons]; omega)
    rw [membersOnto_comma, member_keyAndValue, hvalue]
    refine hrest.trans ?_
    rw [List.reverse_cons, List.append_assoc, List.singleton_append]

/-- The first member is read behind the brace. -/
theorem members_first (item : Reader Json) (m : String × Json) (ms : Members) (rest : Bytes) :
    members item (printMembers (m :: ms) ++ 125 :: rest) =
      member item (keyAndValue m ++ (moreMembers ms ++ 125 :: rest)) >>= fun read =>
        membersOnto item read.2.length.succ [read.1] read.2 := by
  rw [printMembers_cons, List.append_assoc, printMember_eq, List.cons_append]
  exact members_next (skipBlanks_cons (by decide) _)

/-- The members of an object are read back up to its brace. -/
theorem members_printMembers {item : Reader Json} {ms : Members} (rest : Bytes)
    (hmembers : ∀ m ∈ ms, Reads item m.2) :
    members item (printMembers ms ++ 125 :: rest) = .ok (ms, rest) := by
  cases ms with
  | nil =>
    rw [printMembers, List.nil_append, members, skipBlanks_cons (by decide)]
    rfl
  | cons m ms =>
    rw [members_first, member_keyAndValue,
      hmembers m (List.mem_cons_self ..) _ (delimits_moreMembers ms rest)]
    exact membersOnto_moreMembers ms _ [m] (fun n hn => hmembers n (List.mem_cons_of_mem _ hn))
      (Nat.le_succ _)

theorem print_object_append (ms : Members) (rest : Bytes) :
    print (.object ms) ++ rest = 123 :: (printMembers ms ++ 125 :: rest) := by
  rw [print, show utf8 "\x7b" = [123] from by decide, show utf8 "\x7d" = [125] from by decide]
  simp only [List.append_assoc, List.cons_append, List.nil_append]

theorem valueWith_brace (item : Reader Json) (rest : Bytes) :
    valueWith (some item) (123 :: rest) =
      (members item rest).map fun read => (.object (Members.ofList read.1), read.2) := by
  rw [valueWith, skipBlanks_cons (by decide)]
  cases hread : members item rest with
  | error stop =>
    simp only [bind, Except.bind, hread]
    rfl
  | ok read =>
    simp only [bind, Except.bind, hread]
    rfl

/-! ## Values

Both kinds of nesting go one level down, so the induction is on the nesting of the value and the depth
of the reader together. -/

/-- **Values.** A value with whole numbers is read back whatever follows it, by the reader of its own
depth. Induction on the nesting: the reader of the items is the reader of one depth less. -/
theorem value_print {depth : Nat} {v : Json} (hnested : Nested depth v) (hwhole : IsWhole v) :
    Reads (value depth) v := by
  induction hnested with
  | null depth =>
    intro rest _
    obtain ⟨item, hitem⟩ := value_eq depth
    rw [hitem, print, valueWith_null]
  | bool depth b =>
    intro rest _
    obtain ⟨item, hitem⟩ := value_eq depth
    rw [hitem, valueWith_bool]
  | number depth n =>
    intro rest hrest
    obtain ⟨item, hitem⟩ := value_eq depth
    cases hwhole with
    | number _ hn => rw [hitem, valueWith_number item hn hrest]
  | string depth s =>
    intro rest _
    obtain ⟨item, hitem⟩ := value_eq depth
    rw [hitem, print, valueWith_string]
  | array depth values _ ih =>
    intro rest _
    rw [print_array_append, value, valueWith_bracket,
      items_printItems rest fun v hv => ih v hv (hwhole.item hv)]
    rfl
  | object depth ms hkeys _ ih =>
    intro rest _
    rw [print_object_append, value, valueWith_brace,
      members_printMembers rest fun m hm => ih m hm (hwhole.member hm)]
    -- distinct keys: collecting the members changes nothing
    show Except.ok (Json.object (Members.ofList ms), rest) = _
    rw [Members.ofList_eq_self hkeys]

/-- A reader that reads a value back reads its whole text. -/
theorem readWith_print {reader : Reader Json} {v : Json} (h : Reads reader v) :
    readWith reader (print v) = .ok v := by
  have hread := h [] .nil
  rw [List.append_nil] at hread
  rw [readWith, hread]
  rfl

/-- **The round trip.** A value that nests no deeper than the reader allows, with whole numbers, is
read back from its own text. -/
theorem read_print {v : Json} (hnested : Nested maxDepth v) (hwhole : IsWhole v) :
    read (print v) = .ok v := readWith_print (value_print hnested hwhole)

/-- Reading back, in terms of the texts that are values. -/
theorem read?_print {v : Json} (hnested : Nested maxDepth v) (hwhole : IsWhole v) :
    read? (print v) = some v := by
  rw [read?, read_print hnested hwhole]
  rfl

/-! ## Printed text is UTF-8 -/

/-- Bytes that spell characters. -/
def IsText (bytes : Bytes) : Prop := ∃ cs, bytes = Utf8.encode cs

theorem IsText.append {a b : Bytes} (ha : IsText a) (hb : IsText b) : IsText (a ++ b) := by
  obtain ⟨cs, rfl⟩ := ha
  obtain ⟨ds, rfl⟩ := hb
  exact ⟨cs ++ ds, (Utf8.encode_append cs ds).symm⟩

theorem IsText.flatMap {α : Type} {f : α → Bytes} {xs : List α} (h : ∀ x ∈ xs, IsText (f x)) :
    IsText (xs.flatMap f) := by
  induction xs with
  | nil => exact ⟨[], rfl⟩
  | cons x xs ih =>
    rw [List.flatMap_cons]
    exact (h x (List.mem_cons_self ..)).append (ih fun y hy => h y (List.mem_cons_of_mem _ hy))

theorem isText_comma : IsText [44] := ⟨[','], by decide⟩

/-- The text of a value is UTF-8, whatever its numbers are. -/
theorem isText_print {P : Number → Prop} {v : Json} (h : AllNumbers P v) : IsText (print v) := by
  induction h with
  | null => exact ⟨_, rfl⟩
  | bool b => cases b <;> exact ⟨_, rfl⟩
  | number n _ => exact ⟨_, rfl⟩
  | string s => exact ⟨_, rfl⟩
  | array items _ ih =>
    rw [print]
    refine (IsText.append ⟨_, rfl⟩ ?_).append ⟨_, rfl⟩
    -- commas stand between items, so the first item is set apart
    cases items with
    | nil => exact ⟨[], rfl⟩
    | cons v items =>
      rw [printItems_cons]
      exact (ih v (List.mem_cons_self ..)).append <| .flatMap fun w hw =>
        isText_comma.append (ih w (List.mem_cons_of_mem _ hw))
  | object members _ ih =>
    rw [print]
    refine (IsText.append ⟨_, rfl⟩ ?_).append ⟨_, rfl⟩
    have hmember : ∀ m ∈ members, IsText (printMember m) := by
      intro m hm
      have hkey : IsText (printString m.1) := ⟨_, rfl⟩
      have hcolon : IsText [58] := ⟨[':'], by decide⟩
      exact hkey.append (hcolon.append (ih m hm))
    cases members with
    | nil => exact ⟨[], rfl⟩
    | cons m members =>
      rw [printMembers_cons]
      exact (hmember m (List.mem_cons_self ..)).append <| .flatMap fun n hn =>
        isText_comma.append (hmember n (List.mem_cons_of_mem _ hn))

end Stowage.Json
