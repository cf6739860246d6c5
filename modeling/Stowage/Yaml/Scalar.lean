import Stowage.Text.Hex
import Stowage.Yaml.Cursor
/-!
# Stowage — YAML scalars

Reads scalars in their styles: plain, in quotes, and in blocks. Line breaks inside a scalar are
folded: a single one becomes a space and further ones stay, except in literal blocks, where all stay.
-/

namespace Stowage.Yaml

inductive Style where
  | plain
  | singleQuoted
  | doubleQuoted
  | literal
  | folded
deriving DecidableEq, Repr

/-- Blanks and line breaks that have been read but do not belong to the scalar unless more of it
follows: the blanks before the first break, that break, and the further breaks. -/
structure Gap where
  blanks : List Char
  broken : Bool
  first : List Char
  further : List Char

namespace Gap

def none : Gap := ⟨[], false, [], []⟩

/-- What a gap becomes between two parts of a scalar. -/
def fold (g : Gap) : List Char :=
  -- after a break blanks are indentation and no part of the text
  if g.broken then
    if g.first = ['\n'] then if g.further.isEmpty then [' '] else g.further
    else g.first ++ g.further
  else g.blanks

def addBreak (g : Gap) (text : List Char) : Gap :=
  if g.broken then { g with further := g.further ++ text }
  else ⟨[], true, text, g.further⟩

end Gap

/-- Reads the blanks and line breaks after part of a scalar. `tabAllowed` judges tabs before a given
column at the start of a line. -/
def readGap (tabAllowed : Nat → Bool) :
    Nat → Gap → Cursor → Except Cursor (Gap × Cursor)
  | 0, g, c => .ok (g, c)
  | fuel + 1, g, c =>
    match c.rest with
    | ch :: _ =>
      if isBlank ch then
        if g.broken then
          if ch = '\t' ∧ !tabAllowed c.mark.column then .error c
          else readGap tabAllowed fuel g (c.skip 1)
        else readGap tabAllowed fuel { g with blanks := g.blanks ++ [ch] } (c.skip 1)
      else if isBreak ch then
        let (text, c) := c.lineBreak
        readGap tabAllowed fuel (g.addBreak text) c
      else .ok (g, c)
    | [] => .ok (g, c)

/-! ## Plain scalars -/

/-- How a run of characters of a plain scalar ends. -/
inductive RunEnd where
  | stopped
  | misplacedColon

/-- The characters that separate the parts of flow collections. -/
def isFlowIndicator (c : Char) : Bool := c = ',' ∨ c = '[' ∨ c = ']' ∨ c = '{' ∨ c = '}'

/-- The length of a run of characters of a plain scalar, and how it ends. -/
def plainRun (inFlow : Bool) : Nat → List Char → Nat × RunEnd
  | n, [] => (n, .stopped)
  | n, c :: rest =>
    if isBlank c ∨ isBreak c then (n, .stopped)
    else if inFlow ∧ c = ':' ∧ rest.head?.any (fun d => isFlowIndicator d ∨ d = '?') then
      (n, .misplacedColon)
    else if c = ':' ∧ isSpaceOrEnd rest then (n, .stopped)
    else if inFlow ∧ isFlowIndicator c then (n, .stopped)
    else plainRun inFlow (n + 1) rest

/-- A scalar that has been read: its text, the place after it, where to go on, and whether a line
break came after it. -/
structure ScalarRead where
  text : List Char
  stop : Mark
  next : Cursor
  broken : Bool

/-- Reads a plain scalar on from the text, the gap and the place read so far. -/
def readPlain (inFlow : Bool) (indent : Int) (start : Mark) :
    Nat → List Char → Gap → Mark → Cursor → Except Fault ScalarRead
  | 0, text, g, stop, c => .ok ⟨text, stop, c, g.broken⟩
  | fuel + 1, text, g, stop, c =>
    if c.atDocumentMark ∨ c.sees '#' then .ok ⟨text, stop, c, g.broken⟩
    else
      let (count, how) := plainRun inFlow 0 c.rest
      let run := c.rest.take count
      let after := c.skip count
      match how with
      | .misplacedColon => after.problem "found unexpected ':'" "while scanning a plain scalar" start
      | .stopped =>
        let (text, g, stop) :=
          if count = 0 then (text, g, stop) else (text ++ g.fold ++ run, Gap.none, after.mark)
        if !(after.atBlank ∨ after.atBreak) then .ok ⟨text, stop, after, g.broken⟩
        else
          match readGap (fun column => indent ≤ column) after.rest.length g after with
          | .error at' =>
            at'.problem "found a tab character that violates indentation"
              "while scanning a plain scalar" start
          | .ok (g, next) =>
            if !inFlow ∧ next.mark.column < indent then .ok ⟨text, stop, next, g.broken⟩
            else readPlain inFlow indent start fuel text g stop next

/-! ## Quoted scalars -/

/-- The character that a one-letter escape stands for. -/
def shortEscape? : Char → Option Char
  | '0' => some '\x00'
  | 'a' => some '\x07'
  | 'b' => some '\x08'
  | 't' => some '\t'
  | '\t' => some '\t'
  | 'n' => some '\n'
  | 'v' => some '\x0b'
  | 'f' => some '\x0c'
  | 'r' => some '\r'
  | 'e' => some '\x1b'
  | ' ' => some ' '
  | '"' => some '"'
  | '/' => some '/'
  | '\\' => some '\\'
  | 'N' => some '\u0085'
  | '_' => some '\u00a0'
  | 'L' => some '\u2028'
  | 'P' => some '\u2029'
  | _ => none

/-- The number of hexadecimal digits after an escape letter. -/
def escapeDigits? : Char → Option Nat
  | 'x' => some 2
  | 'u' => some 4
  | 'U' => some 8
  | _ => none

def hexNumber? (digits : List Char) : Option Nat :=
  digits.foldl (fun n c => do (← n) * 16 + (← Hex.value? c)) (some 0)

def readEscape (start : Mark) (c : Cursor) : Except Fault (Char × Cursor) :=
  let during := "while parsing a quoted scalar"
  match c.rest with
  | _ :: letter :: rest =>
    match shortEscape? letter with
    | some ch => .ok (ch, c.skip 2)
    | none =>
      match escapeDigits? letter with
      | none => c.problem "found unknown escape character" during start
      | some count =>
        let c := c.skip 2
        let digits := rest.take count
        match hexNumber? digits, digits.length == count with
        | some n, true =>
          if (0xD800 ≤ n ∧ n ≤ 0xDFFF) ∨ 0x10FFFF < n then
            c.problem "found invalid Unicode character escape code" during start
          else .ok (Char.ofNat n, c.skip count)
        | _, _ => c.problem "did not find expected hexdecimal number" during start
  | _ => c.problem "found unknown escape character" during start

/-- Reads the characters of a quoted scalar up to its end, a blank or a line break, on top of those
already read, last first. The flag says whether an escaped line break came last. -/
def quotedRun (single : Bool) (start : Mark) :
    Nat → List Char → Cursor → Except Fault (List Char × Bool × Cursor)
  | 0, acc, c => .ok (acc, false, c)
  | fuel + 1, acc, c =>
    match c.rest with
    | [] => .ok (acc, false, c)
    | ch :: rest =>
      if isBlank ch ∨ isBreak ch then .ok (acc, false, c)
      else if single then
        if ch = '\'' then
          -- two quotes stand for one
          if rest.head? = some '\'' then quotedRun single start fuel ('\'' :: acc) (c.skip 2)
          else .ok (acc, false, c)
        else quotedRun single start fuel (ch :: acc) (c.skip 1)
      else if ch = '"' then .ok (acc, false, c)
      else if ch = '\\' then
        -- an escaped break joins the lines without a space
        if rest.head?.any isBreak then .ok (acc, true, (c.skip 1).lineBreak.2)
        else
          match readEscape start c with
          | .error fault => .error fault
          | .ok (escaped, c) => quotedRun single start fuel (escaped :: acc) c
      else quotedRun single start fuel (ch :: acc) (c.skip 1)

def readQuoted (single : Bool) (start : Mark) :
    Nat → List Char → Cursor → Except Fault ScalarRead
  | 0, _, c => c.problem "found unexpected end of stream" "while scanning a quoted scalar" start
  | fuel + 1, text, c =>
    let during := "while scanning a quoted scalar"
    if c.atDocumentMark then c.problem "found unexpected document indicator" during start
    else if c.rest.isEmpty then c.problem "found unexpected end of stream" during start
    else
      match quotedRun single start (c.rest.length + 1) [] c with
      | .error fault => .error fault
      | .ok (run, escapedBreak, c) =>
        let text := text ++ run.reverse
        if c.sees (if single then '\'' else '"') then
          let c := c.skip 1
          .ok ⟨text, c.mark, c, false⟩
        else
          match readGap (fun _ => true) c.rest.length ⟨[], escapedBreak, [], []⟩ c with
          | .error at' => at'.problem "found unexpected end of stream" during start
          | .ok (g, c) => readQuoted single start fuel (text ++ g.fold) c

/-! ## Block scalars -/

/-- What becomes of the line breaks at the end of a block. -/
inductive Chomping where
  | strip
  | clip
  | keep
deriving DecidableEq, Repr

/-- The header of a block: its chomping, and its indentation if that is given. -/
structure BlockHeader where
  chomping : Chomping
  increment : Nat

def readChomping (c : Cursor) : Option Chomping :=
  if c.sees '+' then some .keep else if c.sees '-' then some .strip else none

/-- Reads the digit of a header, zero if there is none. -/
def readIncrement (start : Mark) (c : Cursor) : Except Fault (Nat × Cursor) :=
  match c.rest with
  | ch :: _ =>
    if ch = '0' then
      c.problem "found an indentation indicator equal to 0" "while scanning a block scalar" start
    else if ch.isDigit then .ok (ch.toNat - 48, c.skip 1)
    else .ok (0, c)
  | [] => .ok (0, c)

/-- Reads the header of a block after its indicator: sign and digit in either order. -/
def readBlockHeader (start : Mark) (c : Cursor) : Except Fault (BlockHeader × Cursor) :=
  match readChomping c with
  | some chomping => do
    let (increment, c) ← readIncrement start (c.skip 1)
    .ok (⟨chomping, increment⟩, c)
  | none => do
    let (increment, c) ← readIncrement start c
    if increment = 0 then .ok (⟨.clip, 0⟩, c)
    else
      match readChomping c with
      | some chomping => .ok (⟨chomping, increment⟩, c.skip 1)
      | none => .ok (⟨.clip, increment⟩, c)

/-- Empty lines before a line of a block: the breaks, the deepest indentation, and where the last of
them ended. -/
structure EmptyLines where
  breaks : List Char
  deepest : Nat
  stop : Mark

/-- Passes over the indentation of a line, up to a column if one is set, and over empty lines. -/
def readEmptyLines (indent : Nat) (start : Mark) :
    Nat → EmptyLines → Cursor → Except Fault (EmptyLines × Cursor)
  | 0, lines, c => .ok (lines, c)
  | fuel + 1, lines, c =>
    let spaces := (c.rest.takeWhile (· = ' ')).length
    let count := if indent = 0 then spaces else min spaces (indent - c.mark.column)
    let c := c.skip count
    let lines := { lines with deepest := max lines.deepest c.mark.column }
    if (indent = 0 ∨ c.mark.column < indent) ∧ c.sees '\t' then
      c.problem "found a tab character where an indentation space is expected"
        "while scanning a block scalar" start
    else if c.atBreak then
      let (text, c) := c.lineBreak
      readEmptyLines indent start fuel
        { lines with breaks := lines.breaks ++ text, stop := c.mark } c
    else .ok (lines, c)

/-- What has been read of a block: its text, the break after its last line, the empty lines after that,
and whether that line started with a blank. -/
structure Block where
  text : List Char
  lastBreak : List Char
  empty : List Char
  startedBlank : Bool
  stop : Mark

def readLines (literal : Bool) (indent : Nat) (start : Mark) :
    Nat → Block → Cursor → Except Fault (Block × Cursor)
  | 0, b, c => .ok (b, c)
  | fuel + 1, b, c =>
    if c.mark.column = indent ∧ !c.rest.isEmpty then
      let blank := c.atBlank
      let joint :=
        -- folding: a break becomes a space, unless empty lines follow or one of the lines starts
        -- with a blank
        if !literal ∧ b.lastBreak = ['\n'] ∧ !b.startedBlank ∧ !blank then
          if b.empty.isEmpty then [' '] else []
        else b.lastBreak
      let (line, c) := c.span fun ch => !isBreak ch
      let (lastBreak, c) := c.lineBreak
      match readEmptyLines indent start (c.rest.length + 1) ⟨[], 0, c.mark⟩ c with
      | .error fault => .error fault
      | .ok (lines, c) =>
        readLines literal indent start fuel
          ⟨b.text ++ joint ++ b.empty ++ line, lastBreak, lines.breaks, blank, lines.stop⟩ c
    else .ok (b, c)

def readBlock (literal : Bool) (outer : Int) (start : Mark) (c : Cursor) :
    Except Fault ScalarRead := do
  let (header, c) ← readBlockHeader start c
  let c := c.skipComment
  if !c.atBreakOrEnd then
    c.problem "did not find expected comment or line break" "while scanning a block scalar" start
  else
    let (_, c) := c.lineBreak
    let given := if header.increment = 0 then 0
      else if 0 ≤ outer then outer.toNat + header.increment else header.increment
    let (lines, c) ← readEmptyLines given start (c.rest.length + 1) ⟨[], 0, c.mark⟩ c
    -- without an indicator the deepest line up to the first that is not empty sets it
    let indent := if given = 0 then max (max lines.deepest (outer + 1).toNat) 1 else given
    let (b, c) ← readLines literal indent start (c.rest.length + 1)
      ⟨[], [], lines.breaks, false, lines.stop⟩ c
    let text := b.text ++
      (if header.chomping = .strip then [] else b.lastBreak) ++
      (if header.chomping = .keep then b.empty else [])
    .ok ⟨text, b.stop, c, true⟩

end Stowage.Yaml
