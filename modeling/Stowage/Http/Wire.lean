import Stowage.Http.Message
import Stowage.Number.Word64
/-!
# Stowage — HTTP on the wire

The bytes of requests and answers, of which a connection carries one each: a first line, headers, an
empty line and the body. A body is as long as its head announces. Without an announcement a request
has none, and the body of an answer ends with the connection.
-/

namespace Stowage.Http.Wire

/-! ## Writing -/

def line (text : String) : Bytes := utf8 text ++ [13, 10]

def headerLine (header : String × Bytes) : Bytes :=
  utf8 header.1 ++ utf8 ": " ++ header.2 ++ [13, 10]

/-- The bytes of a request to a place. Its version is one in which answers are sent in one piece. -/
def ofRequest (place : Place) (r : Request) : Bytes :=
  line s!"{r.method} {r.target} HTTP/1.0" ++
    line s!"host: {place.machine}:{place.port}" ++
    line s!"content-length: {r.body.length}" ++ line "" ++ r.body

/-- The bytes of an answer, after which the connection is closed. -/
def ofResponse (r : Response) : Bytes :=
  line s!"HTTP/1.1 {statusText r.status}" ++ (r.headers.map headerLine).flatten ++
    line "connection: close" ++ line "" ++ r.body.getD []

/-! ## Heads -/

def trim (bytes : Bytes) : Bytes :=
  let isBlank (b : UInt8) : Bool := b = 32 || b = 9
  ((bytes.dropWhile isBlank).reverse.dropWhile isBlank).reverse

structure Head where
  first : String
  headers : List (String × Bytes)
  rest : Bytes
deriving DecidableEq, Repr

/-- The bytes of a line that was read backwards. Its last may be a carriage return. -/
def ended : Bytes → Bytes
  | 13 :: line => line.reverse
  | line => line.reverse

/-- Takes lines off the front, up to an empty one. The bytes of the line that is being read are given
backwards. -/
def takeLines (line : Bytes) : Bytes → Option (List Bytes × Bytes)
  | [] => none
  | b :: rest =>
    if b ≠ 10 then takeLines (b :: line) rest
    else if (ended line).isEmpty then some ([], rest)
    else (takeLines [] rest).map fun taken => (ended line :: taken.1, taken.2)

def headerOf (line : Bytes) : String × Bytes :=
  (Utf8.decodeLossy (line.takeWhile (· ≠ 58)), trim ((line.dropWhile (· ≠ 58)).drop 1))

/-- Takes the head off the front of what was received, once all of it is there. -/
def head? (received : Bytes) : Option Head :=
  match takeLines [] received with
  | some (first :: headers, rest) => some ⟨Utf8.decodeLossy first, headers.map headerOf, rest⟩
  | _ => none

/-- The value of the first header with a name, in any case of letters. -/
def Head.value? (h : Head) (name : String) : Option String :=
  (h.headers.find? fun header => header.1.toLower == name).map fun header =>
    Utf8.decodeLossy header.2

def Head.length? (h : Head) : Option Nat :=
  (h.value? "content-length").bind fun text => (Word64.read text).toOption

/-! ## Reading -/

/-- What there is of a message. -/
inductive Arrival (α : Type) where
  | begun
  | whole (message : α)
  | garbled
deriving DecidableEq, Repr

/-- Whether an answer ends with its head. -/
def isBare (status : Nat) : Bool := status = 204 || status = 304

/-- The body of an answer in all that came after its head. A longer body than announced is cut, a
shorter one breaks off. -/
def bodyOf (status : Nat) (announced : Option Nat) (received : Bytes) : Option Bytes :=
  if isBare status then some []
  else
    match announced with
    | none => some received
    | some length => if length ≤ received.length then some (received.take length) else none

/-- Whether nothing more of an answer has to be waited for while the connection is open. -/
def isComplete (status : Nat) (announced : Option Nat) (received : Bytes) : Bool :=
  isBare status || announced.any (· ≤ received.length)

def status? (first : String) : Option Nat :=
  match first.splitOn " " with
  | _ :: code :: _ => if code.length = 3 then (Word64.read code).toOption else none
  | _ => none

/-- The answer in what was received, `closed` being whether more can follow. -/
def response (received : Bytes) (closed : Bool) : Arrival Response :=
  match head? received with
  | none => if closed then .garbled else .begun
  | some head =>
    match status? head.first with
    | none => .garbled
    | some status =>
      if closed || isComplete status head.length? head.rest then
        .whole ⟨status, head.headers, bodyOf status head.length? head.rest⟩
      else .begun

/-- The request in what was received. A body in pieces is not taken. -/
def request (received : Bytes) : Arrival Request :=
  match head? received with
  | none => .begun
  | some head =>
    match head.first.splitOn " ", head.value? "transfer-encoding" with
    | [method, target, _], none =>
      let length := head.length?.getD 0
      if length ≤ head.rest.length then .whole ⟨method, target, head.rest.take length⟩
      else .begun
    | _, _ => .garbled

end Stowage.Http.Wire
