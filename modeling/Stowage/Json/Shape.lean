import Stowage.Json.Printer
import Stowage.Json.Reader
/-!
# Stowage — JSON of a given shape

Reads a text straight into the members of a known record, without an intermediate value. The record
is an object whose unknown members are skipped, or an array of its members in their order. Skipped
values are checked for their outline only: their strings may hold broken UTF-8, their numbers may be
out of range, and they may be nested to any depth.
-/

namespace Stowage.Json

def Number.found : Number → Found
  | .int i => .integer i
  | .real x => .float (layout.writeBinary64 x)

/-- The stop for a value of the wrong type, placed after a scalar and before a bracket. -/
def wrongType {α : Type} (expected : String) : Bytes → Except Stop α
  | [] => Stop.atByte .expectedValue []
  | b :: rest =>
    let stop (found : Found) (unread : Bytes) : Except Stop α :=
      Stop.atByte (.mismatch (.invalidType found expected)) unread
    if b = 110 then do
      let ((), rest) ← word (utf8 "ull") rest
      stop .null rest
    else if b = 116 then do
      let ((), rest) ← word (utf8 "rue") rest
      stop (.boolean true) rest
    else if b = 102 then do
      let ((), rest) ← word (utf8 "alse") rest
      stop (.boolean false) rest
    else if b = 45 then do
      let (n, rest) ← unsignedNumber true rest
      stop n.found rest
    else if isDigit b then do
      let (n, rest) ← unsignedNumber false (b :: rest)
      stop n.found rest
    else if b = 34 then do
      let (s, rest) ← text rest
      stop (.text s) rest
    else if b = 91 then stop .sequence (b :: rest)
    else if b = 123 then stop .map (b :: rest)
    else Stop.afterByte .expectedValue (b :: rest)

/-! ## Scalars -/

def flag : Reader Bool := fun unread =>
  match skipBlanks unread with
  | [] => Stop.atByte .endInValue []
  | b :: rest =>
    if b = 116 then do
      let ((), rest) ← word (utf8 "rue") rest
      .ok (true, rest)
    else if b = 102 then do
      let ((), rest) ← word (utf8 "alse") rest
      .ok (false, rest)
    else wrongType "a boolean" (b :: rest)

def quotedText : Reader String := fun unread =>
  match skipBlanks unread with
  | [] => Stop.atByte .endInValue []
  | b :: rest => if b = 34 then text rest else wrongType "a string" (b :: rest)

def anyNumber (expected : String) : Reader Number := fun unread =>
  match skipBlanks unread with
  | [] => Stop.atByte .endInValue []
  | b :: rest =>
    if b = 45 then unsignedNumber true rest
    else if isDigit b then unsignedNumber false (b :: rest)
    else wrongType expected (b :: rest)

/-- Reads a natural number below a bound; `expected` names the type it is read as. -/
def natural (bound : Nat) (expected : String) : Reader Nat := fun unread => do
  let (n, unread) ← anyNumber expected unread
  match n with
  | .int i =>
    if 0 ≤ i ∧ i < bound then .ok (i.toNat, unread)
    else Stop.atByte (.mismatch (.invalidValue (.integer i) expected)) unread
  | .real x =>
    Stop.atByte (.mismatch (.invalidType (Number.real x).found expected)) unread

def word64 : Reader Nat := natural wordLimit "u64"

def word32 : Reader Nat := natural (1 <<< 32) "u32"

/-- Reads `null` as nothing and anything else as an item. -/
def optional {α : Type} (item : Reader α) : Reader (Option α) := fun unread =>
  match skipBlanks unread with
  | 110 :: rest => do
    let ((), rest) ← word (utf8 "ull") rest
    .ok (none, rest)
  | rest => do
    let (a, rest) ← item rest
    .ok (some a, rest)

/-! ## Skipped values -/

/-- Skips an escape after its backslash. -/
def skipEscape : Reader Unit
  | [] => Stop.atByte .endInString []
  | b :: unread =>
    if (shortEscape? b).isSome then .ok ((), unread)
    else if b = 117 then do
      let (_, unread) ← hexEscape unread
      .ok ((), unread)
    else Stop.atByte .invalidEscape unread

def skipString : Nat → Reader Unit
  | 0, _ => Stop.atByte .endInString []
  | _ + 1, [] => Stop.atByte .endInString []
  | fuel + 1, b :: unread =>
    if b = 34 then .ok ((), unread)
    else if b = 92 then
      match skipEscape unread with
      | .error stop => .error stop
      | .ok ((), unread) => skipString fuel unread
    else if b < 32 then Stop.atByte .controlCharacter (b :: unread)
    else skipString fuel unread

/-- Skips an exponent after its mark. -/
def skipExponent : Reader Unit := fun unread =>
  let unread := match unread with
    | 43 :: rest => rest
    | 45 :: rest => rest
    | rest => rest
  match unread with
  | [] => Stop.atByte .invalidNumber []
  | b :: rest =>
    if isDigit b then .ok ((), rest.dropWhile isDigit) else Stop.atByte .invalidNumber rest

/-- Skips what follows the whole part of a number. -/
def skipFraction : Reader Unit
  | 46 :: unread =>
    if startsDigit unread then
      let unread := unread.dropWhile isDigit
      if startsExponent unread then skipExponent unread.tail else .ok ((), unread)
    else Stop.afterByte .invalidNumber unread
  | unread => if startsExponent unread then skipExponent unread.tail else .ok ((), unread)

/-- Skips a number after its sign. -/
def skipNumber : Reader Unit
  | [] => Stop.atByte .invalidNumber []
  | b :: unread =>
    if b = 48 then
      if startsDigit unread then Stop.afterByte .invalidNumber unread else skipFraction unread
    else if isDigit b then skipFraction (unread.dropWhile isDigit)
    else Stop.atByte .invalidNumber unread

/-- An array or an object that is being skipped. -/
inductive Frame where
  | list
  | map
deriving DecidableEq, Repr

/-- Skips the key of an object and the colon after it. -/
def skipKey : Reader Unit := fun unread =>
  match skipBlanks unread with
  | [] => Stop.atByte .endInObject []
  | 34 :: rest => do
    let ((), rest) ← skipString (rest.length + 1) rest
    colon rest
  | rest => Stop.afterByte .keyNotString rest

/-- What comes after the start of a frame or after a value in it. -/
inductive Next where
  | value (frames : List Frame) (unread : Bytes)
  | done (unread : Bytes)

/-- Closes frames until another value is due. `comma` says whether a value has just ended, so that
a comma may follow. -/
def closeFrames : List Frame → Bool → Bytes → Except Stop Next
  | [], _, unread => .ok (.done unread)
  | frame :: frames, comma, unread =>
    match skipBlanks unread with
    | [] => Stop.atByte (match frame with | .list => .endInList | .map => .endInObject) []
    | b :: rest =>
      let more (unread : Bytes) : Except Stop Next :=
        match frame with
        | .list => .ok (.value (frame :: frames) unread)
        | .map =>
          match skipKey unread with
          | .error stop => .error stop
          | .ok ((), unread) => .ok (.value (frame :: frames) unread)
      if comma ∧ b = 44 then more rest
      else if (frame = .list ∧ b = 93) ∨ (frame = .map ∧ b = 125) then
        closeFrames frames true rest
      else if comma then
        Stop.afterByte (match frame with | .list => .expectedListEnd | .map => .expectedObjectEnd)
          (b :: rest)
      -- nothing has been read in this frame, so no comma is due
      else more (b :: rest)

/-- Skips values until every frame is closed. -/
def skipFrames : Nat → List Frame → Reader Unit
  | 0, _, _ => Stop.atByte .endInValue []
  | fuel + 1, frames, unread =>
    let resume (frames : List Frame) (comma : Bool) (unread : Bytes) : Except Stop Next :=
      closeFrames frames comma unread
    let step : Except Stop Next :=
      match skipBlanks unread with
      | [] => Stop.atByte .endInValue []
      | b :: rest =>
        let scalar (r : Except Stop (Unit × Bytes)) : Except Stop Next :=
          match r with
          | .error stop => .error stop
          | .ok ((), unread) => resume frames true unread
        if b = 110 then scalar (word (utf8 "ull") rest)
        else if b = 116 then scalar (word (utf8 "rue") rest)
        else if b = 102 then scalar (word (utf8 "alse") rest)
        else if b = 45 then scalar (skipNumber rest)
        else if isDigit b then scalar (skipNumber (b :: rest))
        else if b = 34 then scalar (skipString (rest.length + 1) rest)
        else if b = 91 then resume (.list :: frames) false rest
        else if b = 123 then resume (.map :: frames) false rest
        else Stop.afterByte .expectedValue (b :: rest)
    match step with
    | .error stop => .error stop
    | .ok (.done unread) => .ok ((), unread)
    | .ok (.value frames unread) => skipFrames fuel frames unread

def skipValue : Reader Unit := fun unread => skipFrames (unread.length + 1) [] unread

/-! ## Records -/

/-- What was read for a member of a record. -/
inductive Slot where
  | flag (b : Bool)
  | text (s : String)
  | natural (n : Nat)
  | tree (v : Option Json)
  | number (n : Option Number)

/-- A member of a record: its key, its reader, and what stands for it when it is left out. -/
structure Member where
  key : String
  read : Reader Slot
  absent : Option Slot

/-- A record: its name and its members in order. -/
structure Shape where
  name : String
  members : List Member

/-- The bytes after the brace that closes an object, if it comes next. -/
def afterBrace (unread : Bytes) : Bytes :=
  match skipBlanks unread with
  | 125 :: rest => rest
  | rest => rest

/-- The bytes after the bracket that closes an array, if it comes next. -/
def afterBracket (unread : Bytes) : Bytes :=
  match skipBlanks unread with
  | 93 :: rest => rest
  | 44 :: rest => skipBlanks rest
  | rest => rest

abbrev Slots := List (String × Slot)

/-- What was read for each member, or what stands for it. -/
def Shape.fill (slots : Slots) : List Member → Except Mismatch (List Slot)
  | [] => .ok []
  | m :: ms =>
    match slots.find? fun slot => slot.1 == m.key with
    | some slot => (fill slots ms).map (slot.2 :: ·)
    | none =>
      match m.absent with
      | some slot => (fill slots ms).map (slot :: ·)
      | none => .error (.missing m.key)

/-- Reads the value of a member after the opening quote of its key. -/
def Shape.member (shape : Shape) (slots : Slots) : Reader Slots := fun unread => do
  let (key, unread) ← text unread
  match shape.members.find? fun m => m.key == key with
  | some m =>
    if slots.any fun slot => slot.1 == key then
      Stop.atByte (.mismatch (.duplicate key)) (afterBrace unread)
    else do
      let ((), unread) ← colon unread
      let (slot, unread) ← m.read unread
      .ok ((key, slot) :: slots, unread)
  | none => do
    let ((), unread) ← colon unread
    let ((), unread) ← skipValue unread
    .ok (slots, unread)

/-- Reads the members of a record up to its closing brace. `first` says that none has been read. -/
def Shape.membersFrom (shape : Shape) : Nat → Bool → Slots → Reader Slots
  | 0, _, _, _ => Stop.atByte .endInObject []
  | fuel + 1, first, slots, unread =>
    match skipBlanks unread with
    | [] => Stop.atByte .endInObject []
    | b :: rest =>
      if b = 125 then .ok (slots, b :: rest)
      else if first then
        if b = 34 then
          match shape.member slots rest with
          | .error stop => .error stop
          | .ok (slots, unread) => shape.membersFrom fuel false slots unread
        else Stop.afterByte .keyNotString (b :: rest)
      else if b = 44 then
        match skipBlanks rest with
        | [] => Stop.atByte .endInValue []
        | 34 :: rest =>
          match shape.member slots rest with
          | .error stop => .error stop
          | .ok (slots, unread) => shape.membersFrom fuel false slots unread
        | 125 :: rest' => Stop.afterByte .trailingComma (125 :: rest')
        | rest => Stop.afterByte .keyNotString rest
      else Stop.afterByte .expectedObjectEnd (b :: rest)

/-- Reads the members of a record from an array, up to what follows the last of them. -/
def Shape.itemsFrom (shape : Shape) : List Member → Nat → Reader (List Slot)
  | [], _, unread => .ok ([], unread)
  | m :: ms, index, unread =>
    let next (unread : Bytes) : Except Stop (List Slot × Bytes) := do
      let (slot, unread) ← m.read unread
      let (slots, unread) ← shape.itemsFrom ms (index + 1) unread
      .ok (slot :: slots, unread)
    -- the array ends early: a member that may be absent gets its slot
    let short : Except Stop (List Slot × Bytes) :=
      match m.absent with
      | some slot => do
        let (slots, unread) ← shape.itemsFrom ms (index + 1) unread
        .ok (slot :: slots, unread)
      | none =>
        let plural := if shape.members.length = 1 then " element" else " elements"
        Stop.atByte
          (.mismatch (.invalidLength index
            (shape.name ++ " with " ++ toString shape.members.length ++ plural)))
          (afterBracket unread)
    match skipBlanks unread with
    | [] => Stop.atByte .endInList []
    | b :: rest =>
      if b = 93 then short
      else if index = 0 then next (b :: rest)
      else if b = 44 then
        match skipBlanks rest with
        | [] => Stop.atByte .endInValue []
        | 93 :: rest' => Stop.afterByte .trailingComma (93 :: rest')
        | rest => next rest
      else Stop.afterByte .expectedListEnd (b :: rest)

def Shape.read (shape : Shape) : Reader (List Slot) := fun unread =>
  match skipBlanks unread with
  | [] => Stop.atByte .endInValue []
  | b :: rest =>
    if b = 91 then do
      let (slots, unread) ← shape.itemsFrom shape.members 0 rest
      match skipBlanks unread with
      | [] => Stop.atByte .endInList []
      | 93 :: rest => .ok (slots, rest)
      | 44 :: rest =>
        match skipBlanks rest with
        | 93 :: rest' => Stop.afterByte .trailingComma (93 :: rest')
        | rest => Stop.afterByte .trailingCharacters rest
      | rest => Stop.afterByte .trailingCharacters rest
    else if b = 123 then do
      let (slots, unread) ← shape.membersFrom (rest.length + 1) true [] rest
      match Shape.fill slots shape.members with
      | .ok slots => .ok (slots, afterBrace unread)
      | .error m => Stop.atByte (.mismatch m) (afterBrace unread)
    else wrongType shape.name (b :: rest)

end Stowage.Json
