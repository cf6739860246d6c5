import Stowage.Chunk.Query
import Stowage.Chunk.Store
import Stowage.Http.Message
import Stowage.Json.Printer
/-!
# Stowage — the chunk host

A chunk host answers HTTP requests on a chunk store. `/health` says that it is there;
`/chunks/<reference>` takes a chunk with `PUT`, gives one with `GET` and drops a payload with
`DELETE`. The reference is one name of the path, percent-decoded. Any page may call it.
-/

namespace Stowage.Chunk.Host

open Http

/-! ## Routes -/

inductive Route where
  | health
  | payload (name : String)
  | unknown
deriving DecidableEq, Repr

def pathOf (target : String) : List Char :=
  let path := target.toList.takeWhile fun c => c ≠ '?' ∧ c ≠ '#'
  if path.isEmpty then ['/'] else path

def queryOf (target : String) : Bytes :=
  let inner := target.toList.takeWhile (· ≠ '#')
  Utf8.encode ((inner.dropWhile (· ≠ '?')).drop 1)

def payloads : List Char := "/chunks/".toList

/-- The route of a target: a reference is one name that is not empty. -/
def routeOf (target : String) : Route :=
  let path := pathOf target
  if path = "/health".toList then .health
  else if payloads.isPrefixOf path then
    let name := path.drop payloads.length
    if name.isEmpty ∨ name.contains '/' then .unknown else .payload (String.ofList name)
  else .unknown

def reference? (name : String) : Option String := Utf8.decode? (Percent.decode (utf8 name))

/-! ## Answers -/

/-- The headers of every answer: any page may read it. -/
def openHeaders : List (String × Bytes) :=
  [("access-control-allow-origin", utf8 "*"),
    ("vary", utf8 <| "origin, access-control-request-method, access-control-request-headers")]

/-- The header that lets pages read all headers. -/
def exposeHeader : String × Bytes := ("access-control-expose-headers", utf8 "*")

def lengthHeader (body : Bytes) : String × Bytes :=
  ("content-length", utf8 (toString body.length))

def sized (status : Nat) (headers : List (String × Bytes)) (body : Bytes) : Response :=
  ⟨status, headers ++ [lengthHeader body], some body⟩

def json (status : Nat) (value : Json) : Response :=
  sized status [("content-type", utf8 "application/json")] value.print

def plain (status : Nat) (text : String) : Response :=
  sized status [("content-type", utf8 "text/plain; charset=utf-8")] (utf8 text)

def done : Response := sized 204 [] []

def nowhere : Response := ⟨404, [], some []⟩

def wrongMethod (allowed : String) : Response := sized 405 [("allow", utf8 allowed)] []

def failed (why : CallError) : Response :=
  json (match why with
    | .notFound _ => 404
    | _ => 400) (.object [("error", .string why.message)])

def badQuery (why : Query.Fault) : Response :=
  plain 400 ("Failed to deserialize query string: " ++ why.message)

def badName : Response := plain 400 "Invalid URL: Invalid UTF-8 in \x60ref_id\x60"

def tooLong : Response := plain 413 "Failed to buffer the request body: length limit exceeded"

def window (w : Window) : Response :=
  sized 200 [("content-type", utf8 "application/octet-stream"),
    (totalHeader, utf8 (toString w.total)),
    (lastHeader, utf8 (if w.isLast then "true" else "false"))] w.data

/-! ## Requests -/

/-- The longest body that is taken. -/
def maxBody : Nat := 2097152

def put (s : Store) (ref : String) (query body : Bytes) : Response × Store :=
  match Query.placement query with
  | .error why => (badQuery why, s)
  | .ok p =>
    if maxBody < body.length then (tooLong, s)
    else
      match s.answerStore ⟨ref, body, p.offset, p.total, p.isLast⟩ with
      | (.ok (), s) => (done, s)
      | (.error why, s) => (failed why, s)

def get (s : Store) (ref : String) (query : Bytes) : Response :=
  match Query.extent query with
  | .error why => badQuery why
  | .ok e =>
    match s.get ⟨ref, e.offset, e.length⟩ with
    | .ok w => window w
    | .error why => failed why

def delete (s : Store) (ref : String) : Response × Store :=
  if s.contains ref then (done, s.remove ref) else (failed (.notFound ref), s)

def healthMethods : String := "GET,HEAD"

def payloadMethods : String := "GET,HEAD,PUT,DELETE"

def answerPayload (s : Store) (r : Request) (name : String) : Response × Store :=
  if ["GET", "HEAD", "PUT", "DELETE"].contains r.method then
    match reference? name with
    | none => (badName, s)
    | some ref =>
      if r.method = "PUT" then put s ref (queryOf r.target) r.body
      else if r.method = "DELETE" then delete s ref
      else (get s ref (queryOf r.target), s)
  else (wrongMethod payloadMethods, s)

def answerRoute (s : Store) (r : Request) : Response × Store :=
  match routeOf r.target with
  | .unknown => (nowhere, s)
  | .health =>
    (if r.method = "GET" ∨ r.method = "HEAD" then json 200 (.object [("status", .string "ok")])
      else wrongMethod healthMethods, s)
  | .payload name => answerPayload s r name

/-- The answer to the question what a page may do. -/
def preflight (r : Request) : Response :=
  let headers := openHeaders ++
    [("access-control-allow-headers", utf8 "*"), ("access-control-allow-methods", utf8 "*")]
  match routeOf r.target with
  | .unknown => ⟨200, headers, some []⟩
  | .health => sized 200 (("allow", utf8 healthMethods) :: headers) []
  | .payload _ => sized 200 (("allow", utf8 payloadMethods) :: headers) []

def answer (s : Store) (r : Request) : Response × Store :=
  if r.method = "OPTIONS" then (preflight r, s)
  else
    let (response, s) := answerRoute s r
    ({ response with
        headers := exposeHeader :: openHeaders ++ response.headers
        body := if r.method = "HEAD" then some [] else response.body }, s)

end Stowage.Chunk.Host
