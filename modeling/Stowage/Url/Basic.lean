import Stowage.Url.Error
import Stowage.Url.Percent
/-!
# Stowage — URLs

The parts of an absolute URL, all of them already percent-encoded, and its text.
-/

namespace Stowage

namespace Url

/-- Who answers at a URL: the name and password of a user, the name or address of a machine, and a
port other than the usual one. -/
structure Authority where
  userinfo : String
  host : String
  port : Option Nat
deriving DecidableEq, Repr

/-- A path: names under a root, or text without any structure. -/
inductive Path where
  | rooted (names : List String)
  | bare (text : String)
deriving DecidableEq, Repr

end Url

structure Url where
  scheme : String
  authority : Option Url.Authority
  path : Url.Path
  query : Option String
  fragment : Option String
deriving DecidableEq, Repr

namespace Url

def Path.text : Path → String
  | rooted names => String.join (names.map fun name => "/" ++ name)
  | bare text => text

def Authority.place (a : Authority) : String :=
  a.host ++ match a.port with
    | some port => s!":{port}"
    | none => ""

def Authority.text (a : Authority) : String :=
  (if a.userinfo.isEmpty then "" else a.userinfo ++ "@") ++ a.place

/-- The text of a URL up to its path. A path that starts with two slashes is kept apart from the
missing authority. -/
def front (u : Url) : String :=
  u.scheme ++ ":" ++ match u.authority, u.path with
    | some a, _ => "//" ++ a.text
    | none, .rooted ("" :: _ :: _) => "/."
    | none, _ => ""

/-- The text of the query with its question mark. -/
def queryText (u : Url) : String :=
  match u.query with
  | some query => "?" ++ query
  | none => ""

def text (u : Url) : String :=
  u.front ++ u.path.text ++ u.queryText ++ match u.fragment with
    | some fragment => "#" ++ fragment
    | none => ""

/-- What is asked for at the machine of a URL: its path and its query. -/
def target (u : Url) : String := u.path.text ++ u.queryText

/-- The schemes with an authority and a usual port. -/
def usualPort? (scheme : String) : Option Nat :=
  if scheme = "http" ∨ scheme = "ws" then some 80
  else if scheme = "https" ∨ scheme = "wss" then some 443
  else if scheme = "ftp" then some 21
  else none

/-- Whether a scheme is one of the web's, in which a backslash counts as a slash. -/
def isWeb (scheme : String) : Bool := scheme = "file" || (usualPort? scheme).isSome

/-- The machine that answers at a URL, unless no machine does. -/
def machine? (u : Url) : Option String :=
  match u.authority with
  | none => none
  | some a => if a.host.isEmpty then none else some a.host

def port (u : Url) : Nat := ((u.authority.bind Authority.port) <|> usualPort? u.scheme).getD 0

def addQuery (u : Url) (fields : String) : Url :=
  { u with query := some (match u.query with
      | none => fields
      | some "" => fields
      | some query => query ++ "&" ++ fields) }

end Url

end Stowage
