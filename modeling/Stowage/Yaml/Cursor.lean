import Stowage.Yaml.Fault
/-!
# Stowage — a cursor in YAML text

The unread characters of a text with the place of the first of them, and the classes of characters
that separate YAML's tokens. A carriage return with a line feed is one line break.
-/

namespace Stowage.Yaml

/-! ## Classes of characters -/

/-- Spaces and tabs. -/
def isBlank (c : Char) : Bool := c = ' ' ∨ c = '\t'

/-- Line breaks: carriage return, line feed, next line, line and paragraph separators. -/
def isBreak (c : Char) : Bool :=
  c = '\r' ∨ c = '\n' ∨ c = '\u0085' ∨ c = '\u2028' ∨ c = '\u2029'

def isBreakOrEnd : List Char → Bool
  | c :: _ => isBreak c
  | [] => true

def isSpaceOrEnd : List Char → Bool
  | c :: _ => isBlank c ∨ isBreak c
  | [] => true

def isWordChar (c : Char) : Bool := c.isAlphanum ∨ c = '_' ∨ c = '-'

/-- The characters that a text may hold at all. -/
def isAllowed (c : Char) : Bool :=
  let n := c.toNat
  n = 0x09 ∨ n = 0x0A ∨ n = 0x0D ∨ (0x20 ≤ n ∧ n ≤ 0x7E) ∨ n = 0x85 ∨ (0xA0 ≤ n ∧ n ≤ 0xD7FF) ∨
    (0xE000 ≤ n ∧ n ≤ 0xFFFD) ∨ 0x10000 ≤ n

/-! ## Cursors -/

/-- The unread characters and their place. -/
structure Cursor where
  rest : List Char
  mark : Mark
deriving DecidableEq, Repr

namespace Cursor

/-- The place after characters of the same line. -/
def forward (m : Mark) (count : Nat) : Mark := ⟨m.index + count, m.line, m.column + count⟩

/-- Passes over characters of the same line. -/
def skip (c : Cursor) (count : Nat) : Cursor := ⟨c.rest.drop count, forward c.mark count⟩

def sees (c : Cursor) (ch : Char) : Bool := c.rest.head? = some ch

def atBreakOrEnd (c : Cursor) : Bool := isBreakOrEnd c.rest

def atSpaceOrEnd (c : Cursor) : Bool := isSpaceOrEnd c.rest

def atBlank (c : Cursor) : Bool := c.rest.head?.any isBlank

def atBreak (c : Cursor) : Bool := c.rest.head?.any isBreak

/-- The leading characters with a property, and the cursor after them. None of them may break the
line. -/
def span (c : Cursor) (p : Char → Bool) : List Char × Cursor :=
  let taken := c.rest.takeWhile p
  (taken, ⟨c.rest.dropWhile p, forward c.mark taken.length⟩)

/-- Passes over a line break, if there is one, and gives what it stands for in a scalar: a line feed,
except for the two separators, which stand for themselves. -/
def lineBreak (c : Cursor) : List Char × Cursor :=
  match c.rest with
  | '\r' :: '\n' :: rest => (['\n'], ⟨rest, c.mark.index + 2, c.mark.line + 1, 0⟩)
  | ch :: rest =>
    if isBreak ch then
      (if ch = '\u2028' ∨ ch = '\u2029' then [ch] else ['\n'],
        ⟨rest, c.mark.index + 1, c.mark.line + 1, 0⟩)
    else ([], c)
  | [] => ([], c)

/-- Whether a line starts here with three dashes, or three dots, of their own. -/
def atDocumentMark (c : Cursor) : Bool :=
  c.mark.column == 0 &&
    match c.rest with
    | '-' :: '-' :: '-' :: rest => isSpaceOrEnd rest
    | '.' :: '.' :: '.' :: rest => isSpaceOrEnd rest
    | _ => false

/-- Passes over blanks, and a comment if one follows. -/
def skipComment (c : Cursor) : Cursor :=
  let c := (c.span isBlank).2
  if c.sees '#' then (c.span fun ch => !isBreak ch).2 else c

/-- A problem here, while something is read that started at a place. -/
def problem {α : Type} (c : Cursor) (text during : String) (start : Mark) : Except Fault α :=
  .error (.malformed text c.mark (some (during, start)))

end Cursor

end Stowage.Yaml
