import Stowage.Text.Utf8
import Stowage.Yaml.Scalar
/-!
# Stowage — YAML tokens

The tokens of a text, with the places where they start and stop. Indentation shows as tokens that
start and end block collections. A key without an indicator is only known by the colon after it, so
its token, and the start of the mapping it opens, are put in front of tokens that were read before.
A token is released when no such key can come in front of it any more.
-/

namespace Stowage.Yaml

inductive Token.Kind where
  | streamStart
  | streamEnd
  | version (major minor : Nat)
  | tagHandle (handle base : String)
  | documentStart
  | documentEnd
  | sequenceStart
  | mappingStart
  | blockEnd
  | flowSequenceStart
  | flowSequenceEnd
  | flowMappingStart
  | flowMappingEnd
  | blockEntry
  | flowEntry
  | key
  | value
  | alias (name : String)
  | anchor (name : String)
  | tag (handle suffix : String)
  | scalar (text : String) (style : Style)
deriving DecidableEq, Repr

structure Token where
  kind : Token.Kind
  start : Mark
  stop : Mark
deriving DecidableEq, Repr

namespace Token

/-- A place where a key may have started: the number of the token there, and whether a colon has to
follow. -/
structure KeyPlace where
  required : Bool
  number : Nat
  mark : Mark
deriving DecidableEq, Repr

/-- The state of reading: the cursor, the tokens that are not released, last first, the number of those
that are, the indentation of the open block collections, innermost first, and the possible key of
every open flow collection and of the block around them, innermost first. -/
structure State where
  cursor : Cursor
  waiting : List Token
  released : Nat
  indent : Int
  outer : List Int
  keyAllowed : Bool
  keys : List (Option KeyPlace)
  depth : Nat

namespace State

def init (text : List Char) : State :=
  { cursor := ⟨text, Mark.start⟩, waiting := [], released := 0, indent := -1, outer := [],
    keyAllowed := true, keys := [none], depth := 0 }

def inFlow (s : State) : Bool := 0 < s.depth

def push (s : State) (kind : Kind) (start stop : Mark) : State :=
  { s with waiting := ⟨kind, start, stop⟩ :: s.waiting }

/-- Puts a token in front of the one with a number. -/
def insert (s : State) (number : Nat) (token : Token) : State :=
  let later := s.released + s.waiting.length - number
  { s with waiting := s.waiting.take later ++ token :: s.waiting.drop later }

/-- Adds a token that is spelled by the next characters. -/
def pushNext (s : State) (kind : Kind) (count : Nat) : State :=
  let next := s.cursor.skip count
  { s.push kind s.cursor.mark next.mark with cursor := next }

def missingColon {α : Type} (s : State) (key : KeyPlace) : Except Fault α :=
  s.cursor.problem "could not find expected ':'" "while scanning a simple key" key.mark

/-- Whether the text has gone on too far for a key: to another line, or 1024 characters. -/
def isStale (s : State) (key : KeyPlace) : Bool :=
  key.mark.line < s.cursor.mark.line ∨ key.mark.index + 1024 < s.cursor.mark.index

/-- Gives up keys that the text has gone too far for, outermost first. -/
def dropStale (s : State) : Except Fault State :=
  match (s.keys.reverse.filterMap id).find? fun key => s.isStale key ∧ key.required with
  | some key => s.missingColon key
  | none => .ok { s with keys := s.keys.map fun key => key.filter fun key => !s.isStale key }

def dropKey (s : State) : Except Fault State :=
  match s.keys with
  | some key :: rest => if key.required then s.missingColon key else .ok { s with keys := none :: rest }
  | _ => .ok s

/-- Notes that a key may start here. In a block, a key at the indentation has to be one. -/
def saveKey (s : State) : Except Fault State :=
  if s.keyAllowed then do
    let required := !s.inFlow && s.indent == s.cursor.mark.column
    let key := ⟨required, s.released + s.waiting.length, s.cursor.mark⟩
    let s ← s.dropKey
    .ok { s with keys := some key :: s.keys.tail }
  else .ok s

/-- Ends the block collections that are indented more than a column. -/
def unroll (s : State) (column : Int) : List Int → State
  | [] => s
  | outer :: rest =>
    if column < s.indent then
      unroll { s.push .blockEnd s.cursor.mark s.cursor.mark with indent := outer, outer := rest }
        column rest
    else s

/-- Ends the block collections that are indented more than a column, unless a flow collection is open.
-/
def unrollTo (s : State) (column : Int) : State :=
  if s.inFlow then s else s.unroll column s.outer

/-- Starts a block collection at a column that is indented more than the ones around it, in front of
the token with a number, or here. -/
def roll (s : State) (column : Nat) (number : Option Nat) (kind : Kind) (mark : Mark) : State :=
  if s.inFlow then s
  else if s.indent < column then
    let s := { s with indent := column, outer := s.indent :: s.outer }
    match number with
    | some number => s.insert number ⟨kind, mark, mark⟩
    | none => s.push kind mark mark
  else s

def misplaced {α : Type} (s : State) (text : String) : Except Fault α :=
  .error (.malformed text s.cursor.mark none)

/-- Passes over blanks, comments and line breaks. Tabs count as blanks where no key can start. -/
def skipSpace : Nat → State → State
  | 0, s => s
  | fuel + 1, s =>
    let c := if s.cursor.mark.index = 0 ∧ s.cursor.sees '\ufeff' then s.cursor.skip 1 else s.cursor
    let c := (c.span fun ch => ch = ' ' ∨ (ch = '\t' ∧ (s.inFlow ∨ !s.keyAllowed))).2
    let c := if c.sees '#' then (c.span fun ch => !isBreak ch).2 else c
    if c.atBreak then
      skipSpace fuel
        { s with cursor := c.lineBreak.2, keyAllowed := s.keyAllowed ∨ !s.inFlow }
    else { s with cursor := c }

/-! ## Single tokens -/

/-- The end of the text, which ends a line. -/
def streamEnd (s : State) : Except Fault State := do
  let m := s.cursor.mark
  let m := if m.column = 0 then m else ⟨m.index, m.line + 1, 0⟩
  let s := { s with cursor := { s.cursor with mark := m } }.unrollTo (-1)
  let s ← s.dropKey
  .ok ({ s with keyAllowed := false }.push .streamEnd s.cursor.mark s.cursor.mark)

/-- Three dashes or dots. -/
def documentMark (s : State) (kind : Kind) : Except Fault State := do
  let s ← (s.unrollTo (-1)).dropKey
  .ok ({ s with keyAllowed := false }.pushNext kind 3)

def flowStart (s : State) (kind : Kind) : Except Fault State := do
  let s ← s.saveKey
  .ok ({ s with keys := none :: s.keys, depth := s.depth + 1, keyAllowed := true }.pushNext kind 1)

def flowEnd (s : State) (kind : Kind) : Except Fault State := do
  let s ← s.dropKey
  let s := if s.inFlow then { s with keys := s.keys.tail, depth := s.depth - 1 } else s
  .ok ({ s with keyAllowed := false }.pushNext kind 1)

def flowEntry (s : State) : Except Fault State := do
  let s ← s.dropKey
  .ok ({ s with keyAllowed := true }.pushNext .flowEntry 1)

def blockEntry (s : State) : Except Fault State := do
  let s ←
    if s.inFlow then pure s
    else if !s.keyAllowed then
      s.misplaced "block sequence entries are not allowed in this context"
    else pure (s.roll s.cursor.mark.column none .sequenceStart s.cursor.mark)
  let s ← s.dropKey
  .ok ({ s with keyAllowed := true }.pushNext .blockEntry 1)

def keyMark (s : State) : Except Fault State := do
  let s ←
    if s.inFlow then pure s
    else if !s.keyAllowed then s.misplaced "mapping keys are not allowed in this context"
    else pure (s.roll s.cursor.mark.column none .mappingStart s.cursor.mark)
  let s ← s.dropKey
  .ok ({ s with keyAllowed := !s.inFlow }.pushNext .key 1)

/-- A colon. It makes the possible key before it a key. -/
def valueMark (s : State) : Except Fault State :=
  match s.keys with
  | some key :: rest =>
    let s := s.insert key.number ⟨.key, key.mark, key.mark⟩
    let s := s.roll key.mark.column (some key.number) .mappingStart key.mark
    .ok ({ s with keys := none :: rest, keyAllowed := false }.pushNext .value 1)
  | _ => do
    let s ←
      if s.inFlow then pure s
      else if !s.keyAllowed then s.misplaced "mapping values are not allowed in this context"
      else pure (s.roll s.cursor.mark.column none .mappingStart s.cursor.mark)
    .ok ({ s with keyAllowed := !s.inFlow }.pushNext .value 1)

def anchor (s : State) (isAlias : Bool) : Except Fault State := do
  let start := s.cursor.mark
  let s ← s.saveKey
  let (name, c) := (s.cursor.skip 1).span isWordChar
  let ended := c.atSpaceOrEnd ||
    c.rest.head?.any fun ch => ['?', ':', ',', ']', '}', '%', '@', '`'].contains ch
  if name.isEmpty ∨ !ended then
    c.problem "did not find expected alphabetic or numeric character"
      (if isAlias then "while scanning an alias" else "while scanning an anchor") start
  else
    let name := String.ofList name
    let s := s.push (if isAlias then .alias name else .anchor name) start c.mark
    .ok { s with cursor := c, keyAllowed := false }

end State

/-! ## Tags and directives -/

/-- The characters of a tag, and those that only a tag in angle brackets can have. -/
def isTagChar (bracketed : Bool) (c : Char) : Bool :=
  isWordChar c || [';', '/', '?', ':', '@', '&', '=', '+', '$', '.', '%', '!', '~', '*', '\'', '(',
    ')'].contains c || (bracketed && [',', '[', ']'].contains c)

def percentByte? : List Char → Option UInt8
  | '%' :: a :: b :: _ => do
    let high ← Hex.value? a
    let low ← Hex.value? b
    some (UInt8.ofNat (high * 16 + low))
  | _ => none

/-- Reads the further bytes of a character spelled with percent signs. -/
def readOctets (during : String) (start : Mark) :
    Nat → List UInt8 → Cursor → Except Fault (List UInt8 × Cursor)
  | 0, bytes, c => .ok (bytes, c)
  | count + 1, bytes, c =>
    match percentByte? c.rest with
    | none => c.problem "did not find URI escaped octet" during start
    | some b =>
      if 0x80 ≤ b ∧ b ≤ 0xBF then readOctets during start count (bytes ++ [b]) (c.skip 3)
      else c.problem "found an incorrect trailing UTF-8 octet" during start

def readEscapes (during : String) (start : Mark) (c : Cursor) :
    Except Fault (List Char × Cursor) :=
  match percentByte? c.rest with
  | none => c.problem "did not find URI escaped octet" during start
  | some b =>
    let more : Option Nat :=
      if b < 0x80 then some 0 else if b &&& 0xE0 = 0xC0 then some 1
      else if b &&& 0xF0 = 0xE0 then some 2 else if b &&& 0xF8 = 0xF0 then some 3 else none
    match more with
    | none => c.problem "found an incorrect leading UTF-8 octet" during start
    | some more => do
      let (bytes, c) ← readOctets during start more [b] (c.skip 3)
      .ok ((Utf8.decodeLossy bytes).toList, c)

/-- Reads the characters of a tag, on top of those already read. -/
def readTagChars (bracketed : Bool) (during : String) (start : Mark) :
    Nat → List Char → Cursor → Except Fault (List Char × Cursor)
  | 0, text, c => .ok (text, c)
  | fuel + 1, text, c =>
    match c.rest with
    | ch :: _ =>
      if isTagChar bracketed ch then
        if ch = '%' then
          match readEscapes during start c with
          | .error fault => .error fault
          | .ok (chars, c) => readTagChars bracketed during start fuel (text ++ chars) c
        else readTagChars bracketed during start fuel (text ++ [ch]) (c.skip 1)
      else .ok (text, c)
    | [] => .ok (text, c)

/-- Reads the part of a tag after its handle. `head` is what was taken for a handle but is none; it
goes in front, without its exclamation mark. -/
def readSuffix (bracketed : Bool) (during : String) (head : List Char) (start : Mark) (c : Cursor) :
    Except Fault (List Char × Cursor) := do
  let (text, after) ← readTagChars bracketed during start c.rest.length (head.drop 1) c
  if head.isEmpty ∧ after.mark.index = c.mark.index then
    after.problem "did not find expected tag URI" during start
  else .ok (text, after)

/-- Reads a handle: an exclamation mark, word characters, perhaps another exclamation mark. -/
def readHandle (c : Cursor) : List Char × Cursor :=
  let (word, c) := (c.skip 1).span isWordChar
  if c.sees '!' then ('!' :: word ++ ['!'], c.skip 1) else ('!' :: word, c)

def readTag (c : Cursor) : Except Fault (List Char × List Char × Cursor) := do
  let start := c.mark
  let during := "while scanning a tag"
  if c.rest[1]? = some '<' then
    let (suffix, c) ← readSuffix true "while parsing a tag" [] start (c.skip 2)
    if c.sees '>' then .ok ([], suffix, c.skip 1)
    else c.problem "did not find the expected '>'" during start
  else
    let (handle, after) := readHandle c
    if 2 ≤ handle.length ∧ handle.getLast? = some '!' then
      let (suffix, c) ← readSuffix false "while parsing a tag" [] start after
      .ok (handle, suffix, c)
    else
      let (suffix, c) ← readSuffix false "while parsing a tag" handle start after
      if suffix.isEmpty then .ok ([], ['!'], c) else .ok (['!'], suffix, c)

namespace State

def tag (s : State) : Except Fault State := do
  let start := s.cursor.mark
  let s ← s.saveKey
  let (handle, suffix, c) ← readTag s.cursor
  if c.atSpaceOrEnd ∨ (s.inFlow ∧ c.sees ',') then
    let s := s.push (.tag (String.ofList handle) (String.ofList suffix)) start c.mark
    .ok { s with cursor := c, keyAllowed := false }
  else c.problem "did not find expected whitespace or line break" "while scanning a tag" start

end State

def readVersionNumber (start : Mark) (c : Cursor) : Except Fault (Nat × Cursor) :=
  let (digits, after) := c.span Char.isDigit
  let during := "while scanning a %YAML directive"
  if 9 < digits.length then
    (c.skip 9).problem "found extremely long version number" during start
  else if digits.isEmpty then after.problem "did not find expected version number" during start
  else .ok (digits.foldl (fun n d => n * 10 + (d.toNat - 48)) 0, after)

/-- Reads a directive after its percent sign. -/
def readDirective (start : Mark) (c : Cursor) : Except Fault (Kind × Cursor) := do
  let (name, c) := c.span isWordChar
  let during := "while scanning a directive"
  if name.isEmpty then c.problem "could not find expected directive name" during start
  else if !c.atSpaceOrEnd then
    c.problem "found unexpected non-alphabetical character" during start
  else if name = "YAML".toList then
    let (major, c) ← readVersionNumber start (c.span isBlank).2
    if c.sees '.' then
      let (minor, c) ← readVersionNumber start (c.skip 1)
      .ok (.version major minor, c)
    else
      c.problem "did not find expected digit or '.' character" "while scanning a %YAML directive"
        start
  else if name = "TAG".toList then
    let c := (c.span isBlank).2
    if !c.sees '!' then
      c.problem "did not find expected '!'" "while scanning a tag directive" start
    else
      let (handle, c) := readHandle c
      if handle.getLast? ≠ some '!' then
        c.problem "did not find expected '!'" "while parsing a tag directive" start
      else if !c.atBlank then
        c.problem "did not find expected whitespace" "while scanning a %TAG directive" start
      else
        let (base, c) ← readSuffix true "while parsing a %TAG directive" [] start (c.span isBlank).2
        if c.atSpaceOrEnd then
          .ok (.tagHandle (String.ofList handle) (String.ofList base), c)
        else
          c.problem "did not find expected whitespace or line break"
            "while scanning a %TAG directive" start
  else c.problem "found unknown directive name" during start

namespace State

def directive (s : State) : Except Fault State := do
  let s ← (s.unrollTo (-1)).dropKey
  let start := s.cursor.mark
  let (kind, c) ← readDirective start (s.cursor.skip 1)
  let after := c.skipComment
  if !after.atBreakOrEnd then
    after.problem "did not find expected comment or line break" "while scanning a directive" start
  else
    let s := s.push kind start c.mark
    .ok { s with cursor := after.lineBreak.2, keyAllowed := false }

/-! ## Scalars -/

def block (s : State) (literal : Bool) : Except Fault State := do
  let s ← s.dropKey
  let start := s.cursor.mark
  let r ← readBlock literal s.indent start (s.cursor.skip 1)
  let s := s.push (.scalar (String.ofList r.text) (if literal then .literal else .folded)) start r.stop
  .ok { s with cursor := r.next, keyAllowed := true }

def quoted (s : State) (single : Bool) : Except Fault State := do
  let s ← s.saveKey
  let start := s.cursor.mark
  let r ← readQuoted single start (s.cursor.rest.length + 1) [] (s.cursor.skip 1)
  let style := if single then Style.singleQuoted else .doubleQuoted
  let s := s.push (.scalar (String.ofList r.text) style) start r.stop
  .ok { s with cursor := r.next, keyAllowed := false }

def plain (s : State) : Except Fault State := do
  let s ← s.saveKey
  let start := s.cursor.mark
  let r ← readPlain s.inFlow (s.indent + 1) start (s.cursor.rest.length + 1) [] Gap.none start s.cursor
  let s := s.push (.scalar (String.ofList r.text) .plain) start r.stop
  .ok { s with cursor := r.next, keyAllowed := r.broken }

/-- Whether a character can only start a plain scalar before certain others, or not at all. -/
def isIndicator (c : Char) : Bool :=
  ['-', '?', ':', ',', '[', ']', '{', '}', '#', '&', '*', '!', '|', '>', '\'', '"', '%', '@',
    '`'].contains c

def startsPlain (s : State) : List Char → Bool
  | [] => false
  | c :: rest =>
    (!isBlank c && !isBreak c && !isIndicator c) || (c == '-' && !(rest.head?.any isBlank)) ||
      (!s.inFlow && (c == '?' || c == ':') && !isSpaceOrEnd rest)

/-- The next token, at a cursor that is past all blanks. -/
def next (s : State) : Except Fault State :=
  let c := s.cursor
  match c.rest with
  | [] => s.streamEnd
  | ch :: rest =>
    let spaced := isSpaceOrEnd rest
    if c.mark.column = 0 ∧ ch = '%' then s.directive
    else if c.atDocumentMark then
      s.documentMark (if ch = '-' then .documentStart else .documentEnd)
    else if ch = '[' then s.flowStart .flowSequenceStart
    else if ch = '{' then s.flowStart .flowMappingStart
    else if ch = ']' then s.flowEnd .flowSequenceEnd
    else if ch = '}' then s.flowEnd .flowMappingEnd
    else if ch = ',' then s.flowEntry
    else if ch = '-' ∧ spaced then s.blockEntry
    else if ch = '?' ∧ (s.inFlow ∨ spaced) then s.keyMark
    else if ch = ':' ∧ (s.inFlow ∨ spaced) then s.valueMark
    else if ch = '*' then s.anchor true
    else if ch = '&' then s.anchor false
    else if ch = '!' then s.tag
    else if ch = '|' ∧ !s.inFlow then s.block true
    else if ch = '>' ∧ !s.inFlow then s.block false
    else if ch = '\'' then s.quoted true
    else if ch = '"' then s.quoted false
    else if s.startsPlain c.rest then s.plain
    else
      c.problem "found character that cannot start any token" "while scanning for the next token"
        c.mark

/-- Reads one more token, or several that end block collections. -/
def step (s : State) : Except Fault State := do
  let s := s.skipSpace (s.cursor.rest.length + 1)
  let s ← s.dropStale
  (s.unrollTo s.cursor.mark.column).next

/-- Whether a key may still come in front of the first token that waits. -/
def isHeld (s : State) : Bool :=
  s.keys.any fun key => key.any fun key => key.number == s.released

/-- Releases waiting tokens, from the first on, and gives those released. -/
def release : Nat → State → Except Fault (List Token × State)
  | 0, s => .ok ([], s)
  | fuel + 1, s =>
    match s.waiting.getLast? with
    | none => .ok ([], s)
    | some token =>
      match s.dropStale with
      | .error fault => .error fault
      | .ok s =>
        if s.isHeld then .ok ([], s)
        else
          match release fuel
              { s with waiting := s.waiting.dropLast, released := s.released + 1 } with
          | .error fault => .error fault
          | .ok (tokens, s) => .ok (token :: tokens, s)

end State

/-- The tokens of a text from a state on, and the problem that ends them early. Every step but the
last reads a character. -/
def readFrom : Nat → State → List Token × Option Fault
  | 0, _ => ([], none)
  | fuel + 1, s =>
    match s.step with
    | .error fault => ([], some fault)
    | .ok s =>
      match s.release s.waiting.length with
      | .error fault => ([], some fault)
      | .ok (tokens, s) =>
        if tokens.getLast?.any fun t => t.kind == .streamEnd then (tokens, none)
        else
          let (more, fault) := readFrom fuel s
          (tokens ++ more, fault)

/-- The bytes before the first character that a text may not hold. -/
def badOffset? (text : String) : Option Nat :=
  let rec go (offset : Nat) : List Char → Option Nat
    | [] => none
    | c :: rest => if isAllowed c then go (offset + c.utf8Size) rest else some offset
  go 0 text.toList

def ofText (text : String) : List Token × Option Fault :=
  let first : Token := ⟨.streamStart, Mark.start, Mark.start⟩
  match badOffset? text with
  | some offset => ([first], some (.controlCharacter offset))
  | none =>
    let (tokens, fault) := readFrom (text.length + 2) { State.init text.toList with released := 1 }
    (first :: tokens, fault)

end Token

end Stowage.Yaml
