import Stowage.Json.Fault
import Stowage.Json.Value
import Stowage.Text.Hex
/-!
# Stowage — reading JSON

Reads the JSON of RFC 8259 from bytes, strictly: no leading zeros, no raw control characters, no
lone surrogates, no broken UTF-8, no text after the value, at most 127 nested arrays and objects.
Readers take bytes and give back a result with the bytes after it, or the place where they stopped.
A place before the next byte is given by `Stop.atByte`, a place just after it by `Stop.afterByte`.
-/

namespace Stowage.Json

abbrev Reader (α : Type) := Bytes → Except Stop (α × Bytes)

/-- A stop before the unread bytes. -/
def Stop.atByte {α : Type} (reason : Reason) (unread : Bytes) : Except Stop α :=
  .error ⟨reason, unread.length⟩

/-- A stop just after the next unread byte, or at the end if there is none. -/
def Stop.afterByte {α : Type} (reason : Reason) (unread : Bytes) : Except Stop α :=
  .error ⟨reason, unread.length - 1⟩

/-- Space, tab, line feed and carriage return. -/
def isBlank (b : UInt8) : Bool := b = 32 ∨ b = 9 ∨ b = 10 ∨ b = 13

def skipBlanks (bytes : Bytes) : Bytes := bytes.dropWhile isBlank

/-- Reads the rest of a fixed word. -/
def word : Bytes → Reader Unit
  | [], unread => .ok ((), unread)
  | _ :: _, [] => Stop.atByte .endInValue []
  | c :: cs, b :: unread => if b = c then word cs unread else Stop.atByte .expectedWord unread

/-! ## Numbers -/

def isDigit (b : UInt8) : Bool := 48 ≤ b ∧ b ≤ 57

def digitValue (b : UInt8) : Nat := b.toNat - 48

def startsExponent : Bytes → Bool
  | b :: _ => b = 101 ∨ b = 69
  | [] => false

def startsDigit : Bytes → Bool
  | b :: _ => isDigit b
  | [] => false

/-- Digits added to a number as long as it stays below a bound. -/
structure Gathered where
  value : Nat
  count : Nat
  unread : Bytes

/-- Adds digits to `value` while it stays below `bound`, and counts them. -/
def gather (bound : Nat) : Nat → Nat → Bytes → Gathered
  | value, count, [] => ⟨value, count, []⟩
  | value, count, b :: unread =>
    if isDigit b ∧ value * 10 + digitValue b < bound then
      gather bound (value * 10 + digitValue b) (count + 1) unread
    else ⟨value, count, b :: unread⟩

/-- The magnitude `significand * 10 ^ exponent`, computed by one rounded multiplication or by
rounded divisions of at most 308 places each; `none` beyond the finite range. -/
def scaleOnto : Nat → Nat → Int → Option Nat
  | _, units, .ofNat k =>
    if units = 0 then some 0
    else if 308 < k then none
    else
      let product := Binary64.mul units (Binary64.tenPow k)
      if product < Binary64.limit then some product else none
  | 0, _, .negSucc _ => some 0
  | fuel + 1, units, .negSucc k =>
    if units = 0 then some 0
    else if k < 308 then some (Binary64.div units (Binary64.tenPow (k + 1)))
    else
      scaleOnto fuel (Binary64.div units (Binary64.tenPow 308)) (.negSucc k + 308)

/-- The magnitude of a significand and an exponent. Three divisions turn every magnitude to zero. -/
def scale (significand : Nat) (exponent : Int) : Option Nat :=
  scaleOnto 4 (Binary64.ofNat significand) exponent

def realOf (negative : Bool) (significand : Nat) (exponent : Int) : Reader Number := fun unread =>
  match scale significand exponent with
  | some units => .ok (.real ⟨negative, units⟩, unread)
  | none => Stop.atByte .numberOutOfRange unread

/-- Reads what follows an exponent mark. An exponent of ten digits or more overflows where it leaves
the signed 32-bit range, unless the number is zero or the exponent negative. -/
def exponentPart (negative : Bool) (significand : Nat) (exponent : Int) : Reader Number :=
  fun unread =>
    let (down, unread) := match unread with
      | 43 :: rest => (false, rest)
      | 45 :: rest => (true, rest)
      | rest => (false, rest)
    match unread with
    | [] => Stop.atByte .endInValue []
    | b :: rest =>
      if isDigit b then
        let power := gather (1 <<< 31) 0 0 (b :: rest)
        match power.unread with
        | c :: rest' =>
          -- the power has left 32 bits, so the number is out of range or as good as zero
          if isDigit c then
            if significand ≠ 0 ∧ !down then Stop.atByte .numberOutOfRange rest'
            else .ok (.real ⟨negative, 0⟩, rest'.dropWhile isDigit)
          else
            realOf negative significand
              (if down then exponent - power.value else exponent + power.value) power.unread
        | [] =>
          realOf negative significand
            (if down then exponent - power.value else exponent + power.value) []
      else Stop.atByte .invalidNumber rest

def afterFraction (negative : Bool) (significand : Nat) (exponent : Int) : Reader Number :=
  fun unread =>
    match unread with
    | b :: rest =>
      if startsExponent (b :: rest) then exponentPart negative significand exponent rest
      else realOf negative significand exponent (b :: rest)
    | [] => realOf negative significand exponent []

/-- Reads what follows a decimal point. Digits past the 64-bit range of the significand are dropped. -/
def fraction (negative : Bool) (significand : Nat) (exponent : Int) : Reader Number := fun unread =>
  let places := gather wordLimit significand 0 unread
  if startsDigit places.unread then
    afterFraction negative places.value (exponent - places.count)
      (places.unread.dropWhile isDigit)
  else if places.count = 0 then
    match places.unread with
    | [] => Stop.afterByte .endInValue []
    | rest => Stop.afterByte .invalidNumber rest
  else afterFraction negative places.value (exponent - places.count) places.unread

/-- Reads what follows the digits of a whole part that fits in 64 bits. -/
def afterWhole (negative : Bool) (significand : Nat) : Reader Number := fun unread =>
  match unread with
  | 46 :: rest => fraction negative significand 0 rest
  | _ =>
    if startsExponent unread then exponentPart negative significand 0 unread.tail
    else if !negative then .ok (.int significand, unread)
    else if 1 ≤ significand ∧ significand ≤ 1 <<< 63 then .ok (.int (-significand), unread)
    else .ok (.real ⟨true, Binary64.ofNat significand⟩, unread)

/-- Reads what follows the digits of a whole part that are significant, when more of them come. -/
def afterLongWhole (negative : Bool) (significand : Nat) : Reader Number := fun unread =>
  let more := unread.takeWhile isDigit
  match unread.dropWhile isDigit with
  | 46 :: rest => fraction negative significand more.length rest
  | rest => afterFraction negative significand more.length rest

def unsignedNumber (negative : Bool) : Reader Number
  | [] => Stop.atByte .endInValue []
  | b :: unread =>
    if b = 48 then
      if startsDigit unread then Stop.afterByte .invalidNumber unread
      else afterWhole negative 0 unread
    else if isDigit b then
      let whole := gather wordLimit 0 0 (b :: unread)
      if startsDigit whole.unread then afterLongWhole negative whole.value whole.unread
      else afterWhole negative whole.value whole.unread
    else Stop.atByte .invalidNumber unread

/-! ## Strings -/

/-- Reads the four digits of a `\u` escape. -/
def hexEscape : Reader Nat
  | a :: b :: c :: d :: unread =>
    match Hex.ofByte? a, Hex.ofByte? b, Hex.ofByte? c, Hex.ofByte? d with
    | some w, some x, some y, some z => .ok (((w * 16 + x) * 16 + y) * 16 + z, unread)
    | _, _, _, _ => Stop.atByte .invalidEscape unread
  | _ => Stop.atByte .endInString []

/-- Reads the second half of a surrogate pair whose first half is `high`. -/
def lowSurrogate (high : Nat) : Reader Nat
  | [] => Stop.atByte .endInString []
  | 92 :: [] => Stop.atByte .endInString []
  | 92 :: 117 :: unread => do
    let (low, unread) ← hexEscape unread
    if 0xDC00 ≤ low ∧ low ≤ 0xDFFF then
      .ok ((high - 0xD800) * 0x400 + (low - 0xDC00) + 0x10000, unread)
    else Stop.atByte .loneSurrogate unread
  | 92 :: _ :: unread => Stop.atByte .unfinishedEscape unread
  | _ :: unread => Stop.atByte .unfinishedEscape unread

/-- The byte that a one-letter escape stands for. -/
def shortEscape? (b : UInt8) : Option UInt8 :=
  if b = 34 ∨ b = 92 ∨ b = 47 then some b
  else if b = 98 then some 8
  else if b = 102 then some 12
  else if b = 110 then some 10
  else if b = 114 then some 13
  else if b = 116 then some 9
  else none

/-- Reads an escape after its backslash and gives the bytes it stands for. -/
def escapeSequence : Reader Bytes
  | [] => Stop.atByte .endInString []
  | b :: unread =>
    match shortEscape? b with
    | some c => .ok ([c], unread)
    | none =>
      if b = 117 then do
        let (n, unread) ← hexEscape unread
        if 0xDC00 ≤ n ∧ n ≤ 0xDFFF then Stop.atByte .loneSurrogate unread
        else if 0xD800 ≤ n ∧ n ≤ 0xDBFF then do
          let (n, unread) ← lowSurrogate n unread
          .ok (String.utf8EncodeChar (Char.ofNat n), unread)
        else .ok (String.utf8EncodeChar (Char.ofNat n), unread)
      else Stop.atByte .invalidEscape unread

/-- Reads the bytes of a string up to its closing quote, on top of those already read, last first.
-/
def stringOnto : Nat → Bytes → Reader Bytes
  | 0, _, _ => Stop.atByte .endInString []
  | _ + 1, _, [] => Stop.atByte .endInString []
  | fuel + 1, acc, b :: unread =>
    if b = 34 then .ok (acc.reverse, unread)
    else if b = 92 then
      match escapeSequence unread with
      | .error stop => .error stop
      | .ok (bytes, unread) => stringOnto fuel (bytes.reverse ++ acc) unread
    else if b < 32 then Stop.atByte .controlCharacter unread
    else stringOnto fuel (b :: acc) unread

/-- Reads a string after its opening quote. Broken UTF-8 is found when the closing quote is reached, and
the place is before that quote. -/
def text : Reader String := fun unread =>
  match stringOnto (unread.length + 1) [] unread with
  | .error stop => .error stop
  | .ok (bytes, unread) =>
    match Utf8.decode? bytes with
    | some s => .ok (s, unread)
    | none => .error ⟨.invalidCharacter, unread.length + 1⟩

/-! ## Arrays and objects -/

/-- Reads the items of an array after the first, on top of those already read, last first. -/
def itemsOnto (item : Reader Json) : Nat → List Json → Reader (List Json)
  | 0, _, _ => Stop.atByte .endInList []
  | fuel + 1, acc, unread =>
    match skipBlanks unread with
    | [] => Stop.atByte .endInList []
    | 93 :: rest => .ok (acc.reverse, rest)
    | 44 :: rest =>
      match skipBlanks rest with
      | [] => Stop.atByte .endInValue []
      | 93 :: rest' => Stop.afterByte .trailingComma (93 :: rest')
      | rest =>
        match item rest with
        | .error stop => .error stop
        | .ok (value, unread) => itemsOnto item fuel (value :: acc) unread
    | rest => Stop.afterByte .expectedListEnd rest

/-- Reads the items of an array after its opening bracket. -/
def items (item : Reader Json) : Reader (List Json) := fun unread =>
  match skipBlanks unread with
  | [] => Stop.atByte .endInList []
  | 93 :: rest => .ok ([], rest)
  | rest =>
    match item rest with
    | .error stop => .error stop
    | .ok (value, unread) => itemsOnto item unread.length.succ [value] unread

def colon : Reader Unit := fun unread =>
  match skipBlanks unread with
  | [] => Stop.atByte .endInObject []
  | 58 :: rest => .ok ((), rest)
  | rest => Stop.afterByte .expectedColon rest

/-- Reads one member of an object after the opening quote of its key. -/
def member (item : Reader Json) : Reader (String × Json) := fun unread => do
  let (key, unread) ← text unread
  let ((), unread) ← colon unread
  let (value, unread) ← item unread
  .ok ((key, value), unread)

/-- Reads the members of an object after the first, on top of those already read, last first. -/
def membersOnto (item : Reader Json) : Nat → List (String × Json) → Reader (List (String × Json))
  | 0, _, _ => Stop.atByte .endInObject []
  | fuel + 1, acc, unread =>
    match skipBlanks unread with
    | [] => Stop.atByte .endInObject []
    | 125 :: rest => .ok (acc.reverse, rest)
    | 44 :: rest =>
      match skipBlanks rest with
      | [] => Stop.atByte .endInValue []
      | 34 :: rest =>
        match member item rest with
        | .error stop => .error stop
        | .ok (pair, unread) => membersOnto item fuel (pair :: acc) unread
      | 125 :: rest' => Stop.afterByte .trailingComma (125 :: rest')
      | rest => Stop.afterByte .keyNotString rest
    | rest => Stop.afterByte .expectedObjectEnd rest

/-- Reads the members of an object after its opening brace. -/
def members (item : Reader Json) : Reader (List (String × Json)) := fun unread =>
  match skipBlanks unread with
  | [] => Stop.atByte .endInObject []
  | 125 :: rest => .ok ([], rest)
  | 34 :: rest =>
    match member item rest with
    | .error stop => .error stop
    | .ok (pair, unread) => membersOnto item unread.length.succ [pair] unread
  | rest => Stop.afterByte .keyNotString rest

/-! ## Values -/

/-- Reads a value whose items, if it has any, are read by `item`; without one, arrays and objects are
nested too deep. -/
def valueWith (item : Option (Reader Json)) : Reader Json := fun unread =>
  match skipBlanks unread with
  | [] => Stop.atByte .endInValue []
  | b :: rest =>
    -- the first byte tells the kind, and the readers of words start behind it
    if b = 110 then do
      let ((), rest) ← word (utf8 "ull") rest
      .ok (null, rest)
    else if b = 116 then do
      let ((), rest) ← word (utf8 "rue") rest
      .ok (bool true, rest)
    else if b = 102 then do
      let ((), rest) ← word (utf8 "alse") rest
      .ok (bool false, rest)
    else if b = 45 then do
      let (n, rest) ← unsignedNumber true rest
      .ok (number n, rest)
    else if isDigit b then do
      let (n, rest) ← unsignedNumber false (b :: rest)
      .ok (number n, rest)
    else if b = 34 then do
      let (s, rest) ← text rest
      .ok (string s, rest)
    else if b = 91 then
      match item with
      | none => Stop.afterByte .tooDeep (b :: rest)
      | some item => do
        let (values, rest) ← items item rest
        .ok (array values, rest)
    else if b = 123 then
      match item with
      | none => Stop.afterByte .tooDeep (b :: rest)
      | some item => do
        let (pairs, rest) ← members item rest
        .ok (object (Members.ofList pairs), rest)
    else Stop.afterByte .expectedValue (b :: rest)

/-- Reads a value of at most `depth` nested arrays and objects. -/
def value : Nat → Reader Json
  | 0 => valueWith none
  | depth + 1 => valueWith (some (value depth))

/-- The deepest nesting of arrays and objects that is read. -/
def maxDepth : Nat := 127

/-- Checks that only blanks follow. -/
def finish {α : Type} (result : α × Bytes) : Except Stop α :=
  match skipBlanks result.2 with
  | [] => .ok result.1
  | rest => Stop.afterByte .trailingCharacters rest

def readWith {α : Type} (reader : Reader α) (whole : Bytes) : Except Fault α :=
  match (reader whole).bind finish with
  | .ok a => .ok a
  | .error stop => .error (stop.locate whole)

def read (whole : Bytes) : Except Fault Json := readWith (value maxDepth) whole

/-- The value of a whole text, if it is JSON. -/
def read? (whole : Bytes) : Option Json := (read whole).toOption

end Stowage.Json
