import Stowage.Proofs.Json.Shape
import Stowage.Proofs.Json.Skip
/-!
# Stowage — records in the text of a value

What a shape reads from the text of a value is decided by the value as it is written: by the items of
an array, or by the members of an object with all their repetitions. Where and why a reader stops is
of no interest here, so readers are compared by what they give if they do not stop. For a shape with
one member both ways of writing it come to one list of values (`Shape.toOption_readWith`).
-/

namespace Stowage.Json

/-! ## Members

An object keeps one value for each key, and that is the last one written. A reader of records sees the
members before they are collected, with all repetitions. -/

namespace Members

/-- The values that are written under a key. -/
def valuesOf (members : Members) (key : String) : List Json :=
  (members.filter fun m => m.1 == key).map Prod.snd

theorem valuesOf_cons_self (key : String) (v : Json) (members : Members) :
    valuesOf ((key, v) :: members) key = v :: valuesOf members key := by
  simp [valuesOf]

theorem valuesOf_cons_of_ne {key other : String} (v : Json) (members : Members) (h : key ≠ other) :
    valuesOf ((key, v) :: members) other = valuesOf members other := by
  simp [valuesOf, h]

/-- Putting a member changes what stands under its key, and nothing else. -/
theorem get?_insert (members : Members) (key other : String) (value : Json) :
    (members.insert key value).get? other =
      if other = key then some value else members.get? other := by
  simp only [get?_eq]
  by_cases hin : key ∈ members.keys
  · have hfind : Assoc.find? members key ≠ none := fun hnone => by
      obtain ⟨m, hm, heq⟩ := List.mem_map.mp hin
      exact Assoc.find?_eq_none_iff.mp hnone m hm heq
    obtain ⟨old, hold⟩ := Option.ne_none_iff_exists'.mp hfind
    rw [insert, if_pos ((any_key_iff members key).mpr hin), Assoc.find?_replace, hold,
      Option.map_some]
  · rw [insert_of_notMem value hin]
    refine Assoc.find?_append_singleton members key other value (Assoc.find?_eq_none_iff.mpr ?_)
    exact fun m hm heq => hin (List.mem_map.mpr ⟨m, hm, heq⟩)

/-- The value of a key is the last one that is written under it. -/
theorem get?_ofList (pairs : Members) (key : String) :
    (ofList pairs).get? key = (valuesOf pairs key).getLast? := by
  induction pairs using List.reverseRecOn with
  | nil => rfl
  | append_singleton pairs p ih =>
    have hlist : ofList (pairs ++ [p]) = (ofList pairs).insert p.1 p.2 := List.foldl_concat ..
    have hvalues : valuesOf (pairs ++ [p]) key = valuesOf pairs key ++ valuesOf [p] key := by
      rw [valuesOf, List.filter_append, List.map_append]
      rfl
    rw [hlist, get?_insert, ih, hvalues]
    by_cases hkey : key = p.1
    · subst hkey
      rw [if_pos rfl, show valuesOf [p] p.1 = [p.2] from valuesOf_cons_self p.1 p.2 [],
        List.getLast?_concat]
    · rw [if_neg hkey, show valuesOf [p] key = [] from valuesOf_cons_of_ne p.2 [] (Ne.symm hkey),
        List.append_nil]

end Members

/-- The members that are written in the text of an object, one for each time that a key is written. -/
def writtenMembers (whole : Bytes) : Members :=
  match skipBlanks whole with
  | 123 :: rest =>
    match members (value (maxDepth - 1)) rest with
    | .ok (pairs, _) => pairs
    | .error _ => []
  | _ => []

/-! ## What a reader gives for a value

A reader judges if what it gives depends only on the value that stands in the text. Records are read by
judges, so a record can be read off a value without going back to its text. -/

/-- `Judges reader judge`: from the text of a value, the reader gives what `judge` says of that value
and leaves what stands behind it; where `judge` says nothing, the reader stops. -/
def Judges {α : Type} (reader : Reader α) (judge : Json → Option α) : Prop :=
  ∀ {depth : Nat} {unread rest : Bytes} {v : Json}, value depth unread = .ok (v, rest) →
    (reader unread).toOption = (judge v).map fun a => (a, rest)

/-- The number that a value is. -/
def toNumber? : Json → Option Number
  | number n => some n
  | _ => none

/-- `null` is nothing, any other value something. -/
def optionally {α : Type} (judge : Json → Option α) : Json → Option (Option α)
  | null => some none
  | v => (judge v).map some

/-- Only `null` is taken for nothing. -/
theorem optionally_of_ne {α : Type} (judge : Json → Option α) {v : Json} (h : v ≠ null) :
    optionally judge v = (judge v).map some := by
  cases v <;> first | exact absurd rfl h | rfl

theorem toOption_wrongType {α : Type} (expected : String) (bytes : Bytes) :
    (wrongType expected bytes : Except Stop α).toOption = none := by
  cases bytes with
  | nil => rfl
  | cons b rest =>
    simp only [wrongType, apply_ite Except.toOption, toOption_bind]
    simp [Stop.atByte, Stop.afterByte, Except.toOption]

theorem judges_map {α β : Type} {reader : Reader α} {judge : Json → Option α}
    (h : Judges reader judge) (f : α → β) :
    Judges (fun unread => (reader unread).map fun read => (f read.1, read.2))
      fun v => (judge v).map f := by
  intro depth unread rest v hread
  rw [toOption_map, h hread, Option.map_map, Option.map_map]
  rfl

/-- The reader of numbers judges a value by the number that it is. -/
theorem judges_anyNumber (expected : String) : Judges (anyNumber expected) toNumber? := by
  intro depth unread rest v hread
  obtain ⟨item, hitem⟩ := value_eq depth
  rw [hitem] at hread
  obtain ⟨b, bytes, hunread, hat⟩ := valueAt_of_valueWith hread
  rw [anyNumber, hunread]
  simp only
  cases hat with
  | minus h =>
    rw [if_pos rfl, h]
    rfl
  | digit hb h =>
    rw [if_neg (ne_of_isDigit hb (by decide)), if_pos hb, h]
    rfl
  | _ =>
    rw [if_neg (by decide), if_neg (by decide), toOption_wrongType]
    rfl

/-- Reading a value does not depend on the blanks before it. -/
theorem value_skipBlanks (depth : Nat) (unread : Bytes) :
    value depth (skipBlanks unread) = value depth unread := by
  obtain ⟨item, hitem⟩ := value_eq depth
  rw [hitem, valueWith, valueWith, skipBlanks_skipBlanks]

/-- An optional reader judges `null` to be nothing, and leaves the rest to its item. -/
theorem judges_optional {α : Type} {item : Reader α} {judge : Json → Option α}
    (h : Judges item judge) : Judges (optional item) (optionally judge) := by
  intro depth unread rest v hread
  obtain ⟨inner, hinner⟩ := value_eq depth
  have hvalue := hread
  rw [hinner] at hvalue
  obtain ⟨b, bytes, hunread, hat⟩ := valueAt_of_valueWith hvalue
  -- only `null` starts with this byte
  by_cases hb : b = 110
  · subst hb
    rw [optional, hunread]
    cases hat with
    | null hword =>
      simp only [hword]
      rfl
    | digit hdigit _ => exact absurd hdigit (by decide)
  -- anything else is read by the item, from behind the blanks
  · have hne : v ≠ null := by
      rintro rfl
      cases hat
      exact hb rfl
    rw [← value_skipBlanks] at hread
    have hitem := h hread
    rw [hunread] at hitem
    rw [optional, hunread, optionally_of_ne judge hne]
    split
    · next heq => exact absurd (List.cons.inj heq).1 hb
    · rw [toOption_bind, hitem]
      cases judge v <;> rfl

/-! ## Objects

A shape takes the members in the order in which they are written and puts those it knows into slots.
That is a fold, one step for each member. -/

/-- What has been read once one more member of an object is judged. -/
def Shape.judgeMember (shape : Shape) (judge : Member → Json → Option Slot) (slots : Slots)
    (pair : String × Json) : Option Slots :=
  match shape.members.find? fun m => m.key == pair.1 with
  | some m =>
    if slots.any fun slot => slot.1 == pair.1 then none
    else (judge m pair.2).map fun slot => (pair.1, slot) :: slots
  | none => some slots

section

variable {shape : Shape} {judge : Member → Json → Option Slot} {depth : Nat}
  {unread rest : Bytes} {pairs : List (String × Json)}

/-- One member is judged, put into its slot or skipped. -/
theorem Shape.toOption_member (hjudge : ∀ m ∈ shape.members, Judges m.read (judge m))
    {key : String} {v : Json} (h : MemberAt (value depth).Takes unread key v rest) (slots : Slots) :
    (shape.member slots unread).toOption =
      (shape.judgeMember judge slots (key, v)).map fun slots => (slots, rest) := by
  obtain ⟨hkey, hcolon, hread⟩ := h
  rw [Shape.member, toOption_bind, hkey, judgeMember]
  -- an unknown key is skipped with its value, a known one must not have been seen
  cases hfind : shape.members.find? fun m => m.key == key with
  | none =>
    simp only [Except.toOption, Option.bind_some, hfind, bind, Except.bind, hcolon,
      skipValue_of_value hread]
    rfl
  | some m =>
    have hm := hjudge m (List.mem_of_find?_eq_some hfind) hread
    simp only [Except.toOption, Option.bind_some, hfind]
    by_cases hseen : slots.any fun slot => slot.1 == key
    · rw [if_pos hseen, if_pos hseen]
      rfl
    · rw [if_neg hseen, if_neg hseen, hcolon]
      show (m.read _ >>= fun read => .ok ((key, read.1) :: slots, read.2)).toOption = _
      rw [toOption_bind, hm]
      cases judge m v <;> rfl

/-- The first member is read behind its quote. -/
theorem Shape.membersFrom_quote (fuel : Nat) (slots : Slots) {inside : Bytes}
    (hquote : skipBlanks unread = 34 :: inside) :
    shape.membersFrom (fuel + 1) true slots unread =
      shape.member slots inside >>= fun read => shape.membersFrom fuel false read.1 read.2 := by
  rw [Shape.membersFrom, hquote]
  simp only
  rw [if_neg (by decide), if_pos trivial, if_pos trivial]
  cases shape.member slots inside <;> rfl

/-- Another member is read behind a comma and a quote. -/
theorem Shape.membersFrom_comma (fuel : Nat) (slots : Slots) {next inside : Bytes}
    (h : skipBlanks unread = 44 :: next) (hquote : skipBlanks next = 34 :: inside) :
    shape.membersFrom (fuel + 1) false slots unread =
      shape.member slots inside >>= fun read => shape.membersFrom fuel false read.1 read.2 := by
  rw [Shape.membersFrom, h]
  simp only [hquote]
  rw [if_neg (by decide), if_neg (by decide), if_pos trivial]
  cases shape.member slots inside <;> rfl

/-- The members behind the first are judged up to the brace. Induction on what stands there. -/
theorem Shape.toOption_moreMembers (hjudge : ∀ m ∈ shape.members, Judges m.read (judge m))
    (h : MoreMembers (value depth).Takes unread pairs rest) :
    ∀ {fuel : Nat} (slots : Slots), unread.length < fuel →
      (shape.membersFrom fuel false slots unread).toOption =
        (pairs.foldlM (shape.judgeMember judge) slots).map fun slots => (slots, 125 :: rest) := by
  induction h with
  | @close unread rest h =>
    -- there is more fuel than bytes, so it does not run out before the text does
    intro fuel slots hfuel
    obtain ⟨fuel, rfl⟩ : ∃ k, fuel = k + 1 := ⟨fuel - 1, by omega⟩
    rw [Shape.membersFrom, h]
    rfl
  | @comma unread next inside after rest key v pairs h hquote hmember hmore ih =>
    intro fuel slots hfuel
    obtain ⟨fuel, rfl⟩ : ∃ k, fuel = k + 1 := ⟨fuel - 1, by omega⟩
    have hnext := length_of_skipBlanks h
    have hinside := length_of_skipBlanks hquote
    have hafter := length_memberAt (fun _ _ _ => length_value) hmember
    rw [Shape.membersFrom_comma fuel slots h hquote, toOption_bind,
      Shape.toOption_member hjudge hmember slots, List.foldlM_cons]
    cases shape.judgeMember judge slots (key, v) with
    | none => rfl
    | some slots => exact ih slots (by omega)

/-- The members of an object are judged up to its brace. -/
theorem Shape.toOption_objectAt (hjudge : ∀ m ∈ shape.members, Judges m.read (judge m))
    (h : ObjectAt (value depth).Takes unread pairs rest) {fuel : Nat} (hfuel : unread.length < fuel) :
    (shape.membersFrom fuel true [] unread).toOption =
      (pairs.foldlM (shape.judgeMember judge) []).map fun slots => (slots, 125 :: rest) := by
  obtain ⟨fuel, rfl⟩ : ∃ k, fuel = k + 1 := ⟨fuel - 1, by omega⟩
  cases h with
  | empty h =>
    rw [Shape.membersFrom, h]
    rfl
  | @first inside after rest key v pairs hquote hmember hmore =>
    have hinside := length_of_skipBlanks hquote
    have hafter := length_memberAt (fun _ _ _ => length_value) hmember
    rw [Shape.membersFrom_quote fuel [] hquote, toOption_bind,
      Shape.toOption_member hjudge hmember [], List.foldlM_cons]
    cases shape.judgeMember judge [] (key, v) with
    | none => rfl
    | some slots => exact Shape.toOption_moreMembers hjudge hmore slots (by omega)

/-- The members of an object are judged one after another, and what is left out is filled in. -/
theorem Shape.toOption_read_object (hjudge : ∀ m ∈ shape.members, Judges m.read (judge m))
    {bytes : Bytes} (hunread : skipBlanks unread = 123 :: bytes)
    (h : ObjectAt (value depth).Takes bytes pairs rest) :
    (shape.read unread).toOption =
      ((pairs.foldlM (shape.judgeMember judge) []).bind fun slots =>
        (Shape.fill slots shape.members).toOption).map fun slots => (slots, rest) := by
  rw [Shape.read, hunread]
  simp only
  rw [if_neg (by decide), if_pos trivial, toOption_bind,
    Shape.toOption_objectAt hjudge h (Nat.lt_succ_self _)]
  cases pairs.foldlM (shape.judgeMember judge) [] with
  | none => rfl
  | some slots =>
    simp only [Option.map_some, Option.bind_some, afterBrace_brace]
    cases Shape.fill slots shape.members <;> rfl

end

/-! ## One member

With one member in a shape, the fold comes to the list of the values that are written for it. An empty
list leaves the default, if there is one, and a second value is refused. -/

/-- What a record of one member is, if these are the values that are written for it. -/
def Member.judgeValues (m : Member) (judge : Json → Option Slot) : List Json → Option (List Slot)
  | [] => m.absent.map fun slot => [slot]
  | [v] => (judge v).map fun slot => [slot]
  | _ => none

section

variable {shape : Shape} {m : Member} {judge : Json → Option Slot}

/-- Once the member has been read, it must not be written again. -/
theorem Shape.judge_again (hmembers : shape.members = [m]) (slot : Slot)
    (pairs : List (String × Json)) :
    pairs.foldlM (shape.judgeMember fun _ => judge) [(m.key, slot)] =
      if Members.valuesOf pairs m.key = [] then some [(m.key, slot)] else none := by
  induction pairs with
  | nil => rfl
  | cons pair pairs ih =>
    obtain ⟨key, v⟩ := pair
    rw [List.foldlM_cons, judgeMember, hmembers]
    by_cases hkey : key = m.key
    · subst hkey
      rw [Members.valuesOf_cons_self, if_neg (List.cons_ne_nil _ _)]
      simp
    · rw [Members.valuesOf_cons_of_ne v pairs hkey, ← ih]
      simp [Ne.symm hkey]

/-- What is left of the slots is the judgement of the values under the one key. -/
theorem Shape.judge_members (hmembers : shape.members = [m]) (pairs : List (String × Json)) :
    ((pairs.foldlM (shape.judgeMember fun _ => judge) []).bind fun slots =>
        (Shape.fill slots shape.members).toOption) =
      m.judgeValues judge (Members.valuesOf pairs m.key) := by
  -- induction on the pairs; the first value of the key is taken, and any later one is refused
  induction pairs with
  | nil =>
    rw [hmembers]
    show (Shape.fill [] [m]).toOption = m.absent.map fun slot => [slot]
    rw [Shape.fill]
    cases m.absent <;> rfl
  | cons pair pairs ih =>
    obtain ⟨key, v⟩ := pair
    rw [List.foldlM_cons]
    by_cases hkey : key = m.key
    · subst hkey
      have hfirst : shape.judgeMember (fun _ => judge) [] (m.key, v) =
          (judge v).map fun slot => [(m.key, slot)] := by
        rw [judgeMember, hmembers]
        simp
      rw [Members.valuesOf_cons_self, hfirst]
      cases hslot : judge v with
      | none =>
        cases hmore : Members.valuesOf pairs m.key with
        | nil =>
          rw [Member.judgeValues, hslot]
          rfl
        | cons w ws => rfl
      | some slot =>
        show ((pairs.foldlM (shape.judgeMember fun _ => judge) [(m.key, slot)]).bind _) = _
        rw [Shape.judge_again hmembers slot pairs]
        cases hmore : Members.valuesOf pairs m.key with
        | nil =>
          rw [if_pos rfl, Member.judgeValues, hslot, Option.bind_some, hmembers, Shape.fill]
          simp [Shape.fill, Except.map]
        | cons w ws =>
          rw [if_neg (List.cons_ne_nil _ _)]
          rfl
    · have hother : shape.judgeMember (fun _ => judge) [] (key, v) = some [] := by
        rw [judgeMember, hmembers]
        simp [Ne.symm hkey]
      rw [Members.valuesOf_cons_of_ne v pairs hkey, ← ih, hother]
      rfl

/-- **Objects.** The member is judged by the only value that is written for it, if there is one. -/
theorem Shape.toOption_read_members (hmembers : shape.members = [m]) (hjudge : Judges m.read judge)
    {depth : Nat} {unread bytes rest : Bytes} {pairs : List (String × Json)}
    (hunread : skipBlanks unread = 123 :: bytes) (h : ObjectAt (value depth).Takes bytes pairs rest) :
    (shape.read unread).toOption =
      (m.judgeValues judge (Members.valuesOf pairs m.key)).map fun slots => (slots, rest) := by
  rw [← Shape.judge_members hmembers pairs]
  refine Shape.toOption_read_object (fun other hother => ?_) hunread h
  rw [hmembers, List.mem_singleton] at hother
  exact hother ▸ hjudge

/-- **Arrays.** The member is judged by the only item, if there is one. -/
theorem Shape.toOption_read_array (hmembers : shape.members = [m]) (hjudge : Judges m.read judge)
    {depth : Nat} {unread bytes rest : Bytes} {values : List Json}
    (hunread : skipBlanks unread = 91 :: bytes) (h : ListAt (value depth).Takes bytes values rest) :
    (shape.read unread).toOption =
      (m.judgeValues judge values).map fun slots => (slots, rest) := by
  rw [Shape.read, hunread]
  simp only
  rw [if_pos trivial, hmembers, toOption_bind, Shape.itemsFrom]
  cases h with
  | empty h =>
    simp only [h, Member.judgeValues]
    rw [if_pos trivial]
    cases m.absent with
    | none => rfl
    | some slot => simp [Shape.itemsFrom, bind, Except.bind, h]
  | first h hb hread hmore =>
    simp only [h, Shape.itemsFrom]
    rw [if_neg hb, if_pos trivial, toOption_bind, hjudge hread]
    cases hmore with
    | close hclose =>
      rw [Member.judgeValues]
      cases judge _ with
      | none => rfl
      | some slot => simp [bind, Except.bind, hclose]
    -- a second item is neither the end of the array nor a trailing comma
    | @comma _ next _ _ w ws hcomma _ _ =>
      rw [Member.judgeValues]
      cases judge _ with
      | none => rfl
      | some slot =>
        simp only [bind, Except.bind, Option.map_some, toOption_ok, Option.bind_some,
          hcomma]
        split <;> rfl
      · rintro ⟨⟩
      · rintro _ ⟨⟩

end

/-! ## Whole texts

The text of a value tells which members were written, and its value only which of them count. For what
was printed from a value the two are the same. -/

section

variable {whole : Bytes} {v : Json}

/-- The members that are written are those that are collected in the value. -/
theorem objectAt_writtenMembers {bytes rest : Bytes} (hunread : skipBlanks whole = 123 :: bytes)
    (hread : value maxDepth whole = .ok (v, rest)) :
    v = .object (Members.ofList (writtenMembers whole)) ∧
      ObjectAt (value (maxDepth - 1)).Takes bytes (writtenMembers whole) rest := by
  have hbrace : value maxDepth whole =
      members (value (maxDepth - 1)) bytes >>= fun read =>
        .ok (.object (Members.ofList read.1), read.2) := by
    show valueWith (some (value (maxDepth - 1))) whole = _
    rw [valueWith, hunread]
    rfl
  -- the members that are read here are those that count as written
  rw [hbrace] at hread
  cases hmembers : members (value (maxDepth - 1)) bytes with
  | error stop =>
    rw [hmembers] at hread
    cases hread
  | ok read =>
    obtain ⟨pairs, left⟩ := read
    rw [hmembers] at hread
    cases hread
    have hwritten : writtenMembers whole = pairs := by
      rw [writtenMembers, hunread]
      simp only [hmembers]
    rw [hwritten]
    exact ⟨rfl, objectAt_of_members hmembers⟩

/-- A text that is a value is read as one of the deepest that are allowed, with blanks behind it. -/
theorem exists_valueAt (h : read? whole = some v) :
    ∃ b bytes rest, skipBlanks whole = b :: bytes ∧ value maxDepth whole = .ok (v, rest) ∧
      skipBlanks rest = [] ∧ ValueAt (some (value (maxDepth - 1))) b bytes v rest := by
  obtain ⟨rest, hread, hrest⟩ := read?_eq_some_iff.mp h
  have hwith : valueWith (some (value (maxDepth - 1))) whole = .ok (v, rest) := hread
  obtain ⟨b, bytes, hunread, hat⟩ := valueAt_of_valueWith hwith
  exact ⟨b, bytes, rest, hunread, hread, hrest, hat⟩

/-- The members of an object are the collected ones of those that are written. -/
theorem read?_object {ms : Members} (h : read? whole = some (.object ms)) :
    ms = Members.ofList (writtenMembers whole) := by
  obtain ⟨b, bytes, rest, hunread, hread, -, hat⟩ := exists_valueAt h
  cases hat with
  | object =>
    injection (objectAt_writtenMembers hunread hread).1

/-- Members are written as they are printed, also where a key is repeated. -/
theorem read?_printed {ms : Members} (hnested : ∀ m ∈ ms, Nested (maxDepth - 1) m.2)
    (hwhole : ∀ m ∈ ms, IsWhole m.2) :
    read? (print (.object ms)) = some (.object (Members.ofList ms)) ∧
      writtenMembers (print (.object ms)) = ms := by
  have hprint := print_object_append ms []
  rw [List.append_nil] at hprint
  have hmembers : members (value (maxDepth - 1)) (printMembers ms ++ [125]) = .ok (ms, []) :=
    members_printMembers [] fun m hm => value_print (hnested m hm) (hwhole m hm)
  rw [hprint]
  constructor
  · refine read?_eq_some_iff.mpr ⟨[], ?_, rfl⟩
    show valueWith (some (value (maxDepth - 1))) _ = _
    rw [valueWith_brace, hmembers]
    rfl
  · rw [writtenMembers, skipBlanks_cons (by decide)]
    simp only [hmembers]

/-- **Records of one member** in the text of a value: what is written for the member decides. -/
theorem Shape.toOption_readWith {shape : Shape} {m : Member} {judge : Json → Option Slot}
    (hmembers : shape.members = [m]) (hjudge : Judges m.read judge) (h : read? whole = some v) :
    (readWith shape.read whole).toOption =
      match v with
      | .array values => m.judgeValues judge values
      | .object _ => m.judgeValues judge (Members.valuesOf (writtenMembers whole) m.key)
      | _ => none := by
  obtain ⟨b, bytes, rest, hunread, hread, hrest, hat⟩ := exists_valueAt h
  rw [Json.toOption_readWith]
  -- what is read is all of the text but blanks
  have hend : ∀ slots? : Option (List Slot),
      ((slots?.map fun slots => (slots, rest)).bind fun read =>
        if skipBlanks read.2 = [] then some read.1 else none) = slots? := by
    intro slots?
    cases slots? with
    | none => rfl
    | some slots => exact if_pos hrest
  cases hat with
  | array hinner hlist =>
    cases hinner
    rw [Shape.toOption_read_array hmembers hjudge hunread hlist, hend]
  | object hinner _ =>
    rw [Shape.toOption_read_members hmembers hjudge hunread
      (objectAt_writtenMembers hunread hread).2, hend]
  | digit hb _ =>
    rw [Shape.read, hunread]
    simp only
    rw [if_neg (ne_of_isDigit hb (by decide)), if_neg (ne_of_isDigit hb (by decide)),
      toOption_wrongType]
    rfl
  | _ =>
    rw [Shape.read, hunread]
    simp only
    rw [if_neg (by decide), if_neg (by decide), toOption_wrongType]
    rfl

end

end Stowage.Json
