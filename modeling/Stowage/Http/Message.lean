import Stowage.Http.Status
import Stowage.Text.Marked
/-!
# Stowage — HTTP messages

Requests and answers, as far as a chunk host and its callers look at them.
-/

namespace Stowage.Http

/-- A request: what is to be done, the path and query it is to be done at, and a body. -/
structure Request where
  method : String
  target : String
  body : Bytes
deriving DecidableEq, Repr

/-- An answer. There is no body if it broke off on its way. -/
structure Response where
  status : Nat
  headers : List (String × Bytes)
  body : Option Bytes
deriving DecidableEq, Repr

/-- Where a request goes: a machine, a port, and whether what is said there has to be encrypted. -/
structure Place where
  machine : String
  port : Nat
  encrypted : Bool
deriving DecidableEq, Repr

inductive Fault where
  /-- No connection could be made. -/
  | unreachable (why : String)
  /-- The connection was closed instead. -/
  | hungUp
deriving DecidableEq, Repr

def Fault.refused : Fault := .unreachable "tcp connect error: Connection refused (os error 111)"

def Fault.message : Fault → String
  | unreachable why => s!"error trying to connect: {why}"
  | hungUp => "connection closed before message completed"

namespace Response

/-- Whether a byte of a header is a printable ASCII character or a tab. -/
def isVisible (b : UInt8) : Bool := (32 ≤ b && b < 127) || b = 9

/-- The text of the first header with a name, in any case of letters. A header that is not text
counts as missing. -/
def header? (r : Response) (name : String) : Option String := do
  let (_, value) ← r.headers.find? fun header => header.1.toLower == name
  if value.all isVisible then some (Utf8.decodeLossy value) else none

/-- The text of the body. A body that broke off has none. -/
def text (r : Response) : String := Marked.decode (r.body.getD [])

end Response

end Stowage.Http
