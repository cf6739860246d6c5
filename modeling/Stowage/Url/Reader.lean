import Stowage.Url.Basic
import Stowage.Url.Host
/-!
# Stowage — reading URLs

Reads the text of an absolute URL as browsers do: blanks around it and line breaks and tabs in it
do not count, the scheme comes in small letters, on the web any number of slashes or backslashes
leads to the authority, dot names are resolved, and what a part cannot hold is percent-encoded.
-/

namespace Stowage.Url

/-! ## Schemes -/

/-- The text without control characters and blanks around it, and without tabs and line breaks. -/
def clean (cs : List Char) : List Char :=
  let isEdge (c : Char) : Bool := c ≤ ' '
  let inner := ((cs.dropWhile isEdge).reverse.dropWhile isEdge).reverse
  inner.filter fun c => c ≠ '\t' ∧ c ≠ '\n' ∧ c ≠ '\r'

/-- Whether a character can stand in a scheme after the first. -/
def isSchemeChar (c : Char) : Bool := c.isAlphanum || c = '+' || c = '-' || c = '.'

/-- Takes the scheme off the front, with its colon. -/
def takeScheme (cs : List Char) : Except Error (String × List Char) :=
  match cs.span isSchemeChar with
  | (c :: name, ':' :: rest) =>
    if c.isAlpha then .ok (String.ofList ((c :: name).map Char.toLower), rest)
    else .error .relative
  | _ => .error .relative

/-- Takes a text apart at the first of a character. -/
def cut (mark : Char) (cs : List Char) : List Char × Option (List Char) :=
  match cs.span (· ≠ mark) with
  | (before, _ :: after) => (before, some after)
  | (before, []) => (before, none)

/-! ## Authorities -/

/-- Takes a text apart at the last at sign. -/
def cutUser (cs : List Char) : Option (List Char × List Char) :=
  match (cs.reverse).span (· ≠ '@') with
  | (after, _ :: before) => some (before.reverse, after.reverse)
  | (_, []) => none

/-- The name and password of a user, encoded. A colon without a password is left out. -/
def userinfo (cs : List Char) : String :=
  let (name, password) := cut ':' cs
  let encoded (cs : List Char) : String := String.ofList (Percent.encode Percent.userinfo cs)
  encoded name ++ match password with
    | none => ""
    | some [] => ""
    | some password => ":" ++ encoded password

/-- Takes a text apart before the first colon that is not in brackets. -/
def cutPort (inBrackets : Bool) : List Char → List Char × List Char
  | [] => ([], [])
  | c :: rest =>
    if c = ':' ∧ !inBrackets then ([], c :: rest)
    else
      let (host, port) := cutPort (if c = '[' then true else if c = ']' then false else inBrackets) rest
      (c :: host, port)

def maxPort : Nat := 65535

/-- The port after a machine, unless it is the usual one. What follows a backslash belongs to the
path. -/
def readPort (usual : Option Nat) : List Char → Except Error (Option Nat × List Char)
  | ':' :: cs =>
    let (digits, rest) := cs.span Char.isDigit
    let port := digits.foldl (fun n d => n * 10 + (d.toNat - 48)) 0
    if maxPort < port ∨ !(rest.isEmpty || rest.head? = some '\\') then .error .invalidPort
    else .ok (if digits.isEmpty ∨ usual = some port then none else some port, rest)
  | rest => .ok (none, rest)

def readHost (scheme : String) (cs : List Char) : Except Error String :=
  if (usualPort? scheme).isSome then
    if cs.isEmpty then .error .emptyHost else Host.ofWeb cs
  else Host.ofOther cs

def readAuthority (scheme : String) (cs : List Char) : Except Error (Authority × List Char) := do
  let isEnd (c : Char) : Bool := c = '/' || (c = '\\' && isWeb scheme)
  let (front, path) := cs.span fun c => !isEnd c
  let (user, rest) := match cutUser front with
    | some (user, rest) => (some user, rest)
    | none => (none, front)
  if user = some [] ∧ rest.isEmpty ∧ !path.isEmpty then .error .emptyHost
  else
    let (name, rest) := cutPort false rest
    let host ← readHost scheme name
    if host.isEmpty ∧ rest.head? = some ':' then .error .emptyHost
    else
      let (port, rest) ← readPort (usualPort? scheme) rest
      let userinfo := (user.map userinfo).getD ""
      if host.isEmpty ∧ !userinfo.isEmpty then .error .emptyHost
      else .ok (⟨userinfo, host, port⟩, rest ++ path)

/-! ## Paths -/

/-- Whether a name is a dot, also when it is escaped. -/
def isDot (name : String) : Bool := name = "." || name.toLower = "%2e"

/-- Whether a name is two dots, also when they are escaped. -/
def isDoubleDot (name : String) : Bool :=
  name = ".." || [".%2e", "%2e.", "%2e%2e"].contains name.toLower

/-- Whether a name is the letter of a drive. -/
def isDrive (name : String) : Bool :=
  match name.toList with
  | [letter, mark] => letter.isAlpha && (mark = ':' || mark = '|')
  | _ => false

/-- The path without its last name. The drive of a file stays. -/
def shorten (scheme : String) (names : List String) : List String :=
  match names with
  | [name] => if scheme = "file" ∧ isDrive name then [name] else []
  | names => names.dropLast

/-- Adds a name to a path. Dot names are resolved; the last one leaves an empty name. -/
def addName (scheme : String) (names : List String) (name : String) (isLast : Bool) :
    List String :=
  if isDoubleDot name then shorten scheme names ++ if isLast then [""] else []
  else if isDot name then names ++ if isLast then [""] else []
  else if scheme = "file" ∧ names.isEmpty ∧ isDrive name then
    [String.ofList (name.toList.take 1 ++ [':'])]
  else names ++ [name]

def addNames (scheme : String) : List String → List String → List String
  | names, [] => names
  | names, [last] => addName scheme names last true
  | names, name :: rest => addNames scheme (addName scheme names name false) rest

/-- The names of a path that starts with a slash or without one. The path of a file does not start
with empty names. -/
def readNames (scheme : String) (cs : List Char) : List String :=
  let cs := if isWeb scheme then cs.map fun c => if c = '\\' then '/' else c else cs
  let cs := if cs.head? = some '/' then cs.drop 1 else cs
  let names := (cs.splitOn '/').map fun name =>
    String.ofList (Percent.encode Percent.path name)
  let names := addNames scheme [] names
  if scheme = "file" then
    let named := names.dropWhile String.isEmpty
    if named.isEmpty then [""] else named
  else names

/-! ## URLs -/

/-- The path of a URL with an authority. Only outside the web it can be missing. -/
def readPath (scheme : String) (cs : List Char) : Path :=
  .rooted (if cs.isEmpty ∧ !isWeb scheme then [] else readNames scheme cs)

/-- The machine of a file: this one unless another is named. -/
def readFileHost (cs : List Char) : Except Error String := do
  let host ← if cs.isEmpty then .ok "" else Host.ofWeb cs
  .ok (if host = "localhost" then "" else host)

def readFile (cs : List Char) : Except Error (Authority × Path) :=
  let slashed := cs.map fun c => if c = '\\' then '/' else c
  match slashed with
  | '/' :: '/' :: _ => do
    let (front, path) := (cs.drop 2).span fun c => c ≠ '/' ∧ c ≠ '\\'
    if isDrive (String.ofList front) then .ok (⟨"", "", none⟩, readPath "file" (front ++ path))
    else
      let host ← readFileHost front
      .ok (⟨"", host, none⟩, readPath "file" path)
  | _ => .ok (⟨"", "", none⟩, readPath "file" cs)

def readHierarchy (scheme : String) (cs : List Char) : Except Error (Option Authority × Path) :=
  if scheme = "file" then do
    let (authority, path) ← readFile cs
    .ok (some authority, path)
  else if isWeb scheme then do
    let (authority, rest) ← readAuthority scheme (cs.dropWhile fun c => c = '/' ∨ c = '\\')
    .ok (some authority, readPath scheme rest)
  else
    match cs with
    | '/' :: '/' :: rest => do
      let (authority, rest) ← readAuthority scheme rest
      .ok (some authority, readPath scheme rest)
    | '/' :: rest => .ok (none, .rooted (readNames scheme ('/' :: rest)))
    | rest => .ok (none, .bare (String.ofList (Percent.encode [] rest)))

def ofText (text : String) : Except Error Url := do
  let (scheme, rest) ← takeScheme (clean text.toList)
  let (rest, fragment) := cut '#' rest
  let (rest, query) := cut '?' rest
  let (authority, path) ← readHierarchy scheme rest
  let encoded (set : List Char) (cs : List Char) : String := String.ofList (Percent.encode set cs)
  .ok ⟨scheme, authority, path,
    query.map (encoded (if isWeb scheme then Percent.webQuery else Percent.query)),
    fragment.map (encoded Percent.fragment)⟩

end Stowage.Url
