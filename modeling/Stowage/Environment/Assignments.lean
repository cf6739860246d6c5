import Stowage.Environment
import Stowage.Text.Blank
import Stowage.Text.Utf8
/-!
# Stowage — files of variables

A file can provide variables that are not in the environment yet, one assignment to a line:
`NAME=value`, perhaps after `export`, with comments after `#`. Values can be quoted and can refer to
variables by `$`. The first line that is no assignment ends the file.
-/

namespace Stowage.Environment

/-- Where in a value a character stands. Names of variables may stand inside weak quotes. -/
inductive Spot where
  | bare
  | weak
  | strong
  | escaped (inWeak : Bool)
  | name (inWeak : Bool) (letters : List Char)
  | braced (inWeak : Bool) (letters : List Char)
  | ended
deriving DecidableEq, Repr

/-- The spot outside names, with or without weak quotes around it. -/
def Spot.plain (inWeak : Bool) : Spot := if inWeak then weak else bare

/-- The letters of the value of a variable, which may be missing. -/
def lettersOf (env : Environment) (letters : List Char) : List Char :=
  ((env.get? (String.ofList letters)).getD "").toList

/-- The character that a backslash makes of another. -/
def escapeOf? (c : Char) : Option Char :=
  if c = 'n' then some '\n' else if ['\\', '\'', '"', '$', ' '].contains c then some c else none

def stepBare (c : Char) : Spot × List Char :=
  if c = '$' then (.name false [], [])
  else if c = '\'' then (.strong, [])
  else if c = '"' then (.weak, [])
  else if c = '\\' then (.escaped false, [])
  else if c = ' ' ∨ c = '\t' then (.ended, [])
  else (.bare, [c])

def stepWeak (c : Char) : Spot × List Char :=
  if c = '$' then (.name true [], [])
  else if c = '"' then (.bare, [])
  else if c = '\\' then (.escaped true, [])
  else (.weak, [c])

/-- What comes of a character after a name without braces. One that does not belong to the name is
taken as it is, even a quote. -/
def stepName (env : Environment) (inWeak : Bool) (letters : List Char) (c : Char) :
    Spot × List Char :=
  if c.isAlphanum then (.name inWeak (letters ++ [c]), [])
  else if c = '{' ∧ letters.isEmpty then (.braced inWeak [], [])
  else if c = '$' then (.name inWeak [], lettersOf env letters)
  else (Spot.plain inWeak, lettersOf env letters ++ [c])

def value (env : Environment) : Spot → List Char → Option (List Char)
  | .bare, [] => some []
  | .ended, [] => some []
  | .escaped false, [] => some []
  | .name false letters, [] => some (lettersOf env letters)
  | _, [] => none
  | .ended, c :: rest =>
    if c = ' ' ∨ c = '\t' then value env .ended rest else if c = '#' then some [] else none
  | .escaped inWeak, c :: rest => do
    let c ← escapeOf? c
    let rest ← value env (Spot.plain inWeak) rest
    some (c :: rest)
  | .strong, c :: rest =>
    if c = '\'' then value env .bare rest else (value env .strong rest).map (c :: ·)
  | .name inWeak letters, c :: rest =>
    let (spot, out) := stepName env inWeak letters c
    (value env spot rest).map (out ++ ·)
  | .braced inWeak letters, c :: rest =>
    if c = '}' then (value env (Spot.plain inWeak) rest).map (lettersOf env letters ++ ·)
    else value env (.braced inWeak (letters ++ [c])) rest
  | .weak, c :: rest =>
    let (spot, out) := stepWeak c
    (value env spot rest).map (out ++ ·)
  | .bare, c :: rest =>
    let (spot, out) := stepBare c
    (value env spot rest).map (out ++ ·)

/-- Takes the name of a variable off the front. -/
def takeName (cs : List Char) : Option (List Char × List Char) :=
  let isFirst (c : Char) : Bool := c.isAlpha || c = '_'
  if cs.head?.any isFirst then
    some (cs.span fun c => c.isAlphanum || c = '_' || c = '.')
  else none

/-- What a line provides: a variable, nothing, or no assignment at all. -/
inductive Line where
  | variable (name value : String)
  | empty
  | unreadable
deriving DecidableEq, Repr

/-- Takes a name and its equals sign off the front. A first name `export` may stand before it. -/
def takeAssigned (cs : List Char) : Option (List Char × List Char) := do
  let (name, rest) ← takeName cs
  match rest.dropWhile Text.isBlank with
  | '=' :: rest => some (name, rest)
  | rest =>
    if name = "export".toList then do
      let (name, rest) ← takeName rest
      match rest.dropWhile Text.isBlank with
      | '=' :: rest => some (name, rest)
      | _ => none
    else none

def Line.ofText (env : Environment) (text : List Char) : Line :=
  let cs := (Text.trimEnd text).dropWhile Text.isBlank
  if cs.isEmpty ∨ cs.head? = some '#' then .empty
  else
    match takeAssigned cs with
    | none => .unreadable
    | some (name, rest) =>
      let rest := rest.dropWhile Text.isBlank
      if rest.isEmpty ∨ rest.head? = some '#' then .variable (String.ofList name) ""
      else
        match value env .bare rest with
        | some value => .variable (String.ofList name) (String.ofList value)
        | none => .unreadable

def lines (content : Bytes) : List Bytes :=
  (content.splitOn 10).map fun line => if line.getLast? = some 13 then line.dropLast else line

def provideLines (env : Environment) : List Bytes → Environment
  | [] => env
  | line :: rest =>
    match (Utf8.decode? line).map fun text => Line.ofText env text.toList with
    | some (.variable name value) => provideLines (env.provide name value) rest
    | some .empty => provideLines env rest
    | _ => env

def provideFile (env : Environment) (content : Bytes) : Environment :=
  env.provideLines (lines content)

end Stowage.Environment
