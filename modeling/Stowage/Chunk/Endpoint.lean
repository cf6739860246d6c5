import Stowage.Chunk.Call
import Stowage.Config.Error
import Stowage.Number.Word64
import Stowage.Url.Reader
/-!
# Stowage — endpoints

An endpoint is the URL that a chunk host is found at. A payload has its own URL below it: the path of
the endpoint, then `chunks`, then the reference as one name. This module makes the requests of the
two calls to a host and reads their answers.
-/

namespace Stowage.Chunk

/-- Where a chunk host is found. Its path ends with a slash. -/
structure Endpoint where
  url : Url
deriving DecidableEq, Repr

namespace Endpoint

def slashed : Url.Path → Url.Path
  | .rooted names => .rooted (if names.getLast? = some "" then names else names ++ [""])
  | .bare text =>
    .bare (if text.isEmpty then "%2F" else if text.endsWith "/" then text else text ++ "/")

def ofText (text : String) : Except Config.Error Endpoint :=
  match Url.ofText text with
  | .error why => .error (.endpoint text why)
  | .ok url => .ok ⟨{ url with path := slashed url.path }⟩

/-! ## The URL of a payload -/

/-- The names that lead to the payloads. An empty name at the end of the endpoint is left out, and so
is a single empty name that remains. -/
def payloadNames (names : List String) : List String :=
  let names := if names.getLast? = some "" then names.dropLast else names
  (if names = [""] then [] else names) ++ ["chunks"]

/-- Adds a reference to names as one name. Tabs and line breaks do not count, and what is a dot name
without them is resolved. -/
def addReference (isWeb : Bool) (names : List String) (ref : String) : List String :=
  let cs := ref.toList.filter fun c => c ≠ '\t' ∧ c ≠ '\n' ∧ c ≠ '\r'
  if cs = ['.', '.'] then names.dropLast ++ [""]
  else if cs = ['.'] then names ++ [""]
  else
    let set := if isWeb then Percent.webSegment else Percent.segment
    names ++ [String.ofList (Percent.encode set cs)]

/-- The URL of a payload. Dot names are no references, and an endpoint without a structured path has
no payloads. -/
def payloadUrl (e : Endpoint) (ref : String) : Except HttpFailure Url :=
  if ref = "" ∨ ref = "." ∨ ref = ".." then .error (.invalidReference ref)
  else
    match e.url.path with
    | .bare _ => .error (.noPath e.url.text)
    | .rooted names =>
      .ok { e.url with
        path := .rooted (addReference (Url.isWeb e.url.scheme) (payloadNames names) ref) }

/-! ## Requests -/

structure Outgoing where
  url : Url
  request : Http.Request
deriving DecidableEq, Repr

def Outgoing.place (out : Outgoing) : Http.Place :=
  ⟨out.url.machine?.getD "", out.url.port, out.url.scheme = "https"⟩

/-- A URL without the name and password of a user. -/
def anonymous (u : Url) : Url :=
  { u with authority := u.authority.map fun a => { a with userinfo := "" } }

/-- The request with a method, fields and a body for a payload. Only machines on the web are asked. -/
def request (e : Endpoint) (method ref fields : String) (body : Bytes) :
    Except HttpFailure Outgoing := do
  let url ← e.payloadUrl ref
  if url.machine?.isNone then .error (.schemeNotAllowed url.text)
  else
    let url := (anonymous url).addQuery fields
    if url.scheme = "http" ∨ url.scheme = "https" then .ok ⟨url, ⟨method, url.target, body⟩⟩
    else .error (.schemeNotAllowed url.text)

def storeRequest (e : Endpoint) (r : StoreRequest) : Except HttpFailure Outgoing :=
  e.request "PUT" r.ref s!"offset={r.offset}&total_size={r.total}&is_last={r.isLast}" r.data

def getRequest (e : Endpoint) (r : GetRequest) : Except HttpFailure Outgoing :=
  e.request "GET" r.ref s!"offset={r.offset}&length={r.length}" []

/-! ## Answers -/

def refusal (ref : String) (r : Http.Response) : CallError :=
  if r.status = 404 then .notFound ref else .http (.status (Http.statusText r.status) r.text)

def stored (ref : String) (url : Url) :
    Except Http.Fault Http.Response → Except CallError Unit
  | .error why => .error (.http (.unanswered url.text why))
  | .ok r => if Http.isSuccess r.status then .ok () else .error (refusal ref r)

def windowOf (r : Http.Response) : Except CallError Window :=
  match (r.header? totalHeader).map Word64.read with
  | some (.ok total) =>
    match r.body with
    | none => .error (.http .bodyEndedEarly)
    | some data => .ok ⟨data, total, r.header? lastHeader = some "true"⟩
  | _ => .error (.http .missingTotal)

def fetched (ref : String) (url : Url) :
    Except Http.Fault Http.Response → Except CallError Window
  | .error why => .error (.http (.unanswered url.text why))
  | .ok r => if Http.isSuccess r.status then windowOf r else .error (refusal ref r)

end Endpoint

end Stowage.Chunk
