import Stowage.Chunk.Endpoint
import Stowage.Chunk.Store
import Stowage.Disk.Basic
import Stowage.Program
import Stowage.World.Peer
/-!
# Stowage — a world in virtual time

A world in memory that programs run in: a source of random bytes, a link to a chunk host, a peer that
HTTP requests reach, a disk and an input. Only the link takes time. Every call over it is logged when
it is made; then it waits; then the script says whether it fails, is never answered, or is answered
at once, and without an entry in the script it reaches the host, directly or over HTTP. A call that
would be answered after its patience has run out does nothing.
-/

namespace Stowage

namespace World

inductive Act where
  | fail (why : Chunk.CallError)
  | stall
  | reply (window : Chunk.Window)
deriving DecidableEq, Repr

/-- The delay of every call in nanoseconds, and what becomes of calls by their number. Calls go over
HTTP if there is an endpoint. -/
structure Link where
  delay : Nat
  script : List (Nat × Act)
  endpoint : Option Chunk.Endpoint
deriving DecidableEq, Repr

/-- A link that does not delay and leaves every call to the host. -/
def Link.clear : Link := ⟨0, [], none⟩

def Link.act? (link : Link) (number : Nat) : Option Act :=
  (link.script.find? fun entry => entry.1 == number).map Prod.snd

inductive LogEntry where
  | store (ref : String) (offset size total : Nat) (isLast : Bool)
  | get (ref : String) (offset length : Nat)
deriving DecidableEq, Repr

/-- Sixteen bytes that spell a number, the highest first. -/
def bigEndian (n : Nat) : Bytes :=
  (List.range 16).map fun i => UInt8.ofNat (n / Nat.pow 256 (15 - i))

/-- Random bytes: those that are given come first, after that the number of the draw. -/
structure Dice where
  given : List Bytes
  drawn : Nat
deriving DecidableEq, Repr

def Dice.draw (dice : Dice) : Bytes × Dice :=
  match dice.given with
  | bytes :: given => (bytes, ⟨given, dice.drawn + 1⟩)
  | [] => (bigEndian (dice.drawn + 1), ⟨[], dice.drawn + 1⟩)

end World

/-- A world in memory. The log has the latest call first. -/
structure World where
  dice : World.Dice
  link : World.Link
  made : Nat
  log : List World.LogEntry
  host : Chunk.Store
  peer : World.Peer
  disk : Disk
  input : Bytes

namespace World

def exchange (w : World) (place : Http.Place) (request : Http.Request) :
    Except Http.Fault Http.Response × World :=
  let (reply, peer, host) := w.peer.exchange w.host place request
  (reply, { w with peer, host })

/-- Makes a call over the link: logs it, waits, and lets the script or the host answer. -/
def overLink {α : Type} (w : World) (entry : LogEntry) (patience : Nat)
    (scripted : Chunk.Window → α) (host : World → Except Chunk.CallError α × World) :
    Timed (Except Chunk.CallError α) × World :=
  let act := w.link.act? w.made
  let w := { w with made := w.made + 1, log := entry :: w.log }
  if patience < w.link.delay then (none, w)
  else
    match act with
    | some .stall => (none, w)
    | some (.fail why) => (some (w.link.delay, .error why), w)
    | some (.reply window) => (some (w.link.delay, .ok (scripted window)), w)
    | none =>
      let (result, w) := host w
      (some (w.link.delay, result), w)

/-- Makes a call over HTTP, if there is a request for it. -/
def sendOut {α : Type} (w : World)
    (request : Except Chunk.HttpFailure Chunk.Endpoint.Outgoing)
    (outcome : Url → Except Http.Fault Http.Response → Except Chunk.CallError α) :
    Except Chunk.CallError α × World :=
  match request with
  | .error why => (.error (.http why), w)
  | .ok out =>
    let (reply, w) := w.exchange out.place out.request
    (outcome out.url reply, w)

def hostStore (r : Chunk.StoreRequest) (w : World) : Except Chunk.CallError Unit × World :=
  match w.link.endpoint with
  | some e => w.sendOut (e.storeRequest r) (Chunk.Endpoint.stored r.ref)
  | none =>
    let (result, host) := w.host.answerStore r
    (result, { w with host })

def hostGet (r : Chunk.GetRequest) (w : World) : Except Chunk.CallError Chunk.Window × World :=
  match w.link.endpoint with
  | some e => w.sendOut (e.getRequest r) (Chunk.Endpoint.fetched r.ref)
  | none => (w.host.get r, w)

/-- Answers a call. No host can be run in this world: its port is always taken. -/
def answer : Answering World
  | .draw, w =>
    let (bytes, dice) := w.dice.draw
    (bytes, { w with dice })
  | .store r patience, w =>
    w.overLink (.store r.ref r.offset r.data.length r.total r.isLast) patience (fun _ => ())
      (hostStore r)
  | .get r patience, w =>
    w.overLink (.get r.ref r.offset r.length) patience id (hostGet r)
  | .send place request _, w =>
    let (reply, w) := w.exchange place request
    (some (0, reply), w)
  | .input, w => (w.input, w)
  | .read path, w => (w.disk.read path, w)
  | .change step, w =>
    let (reply, disk) := w.disk.apply step
    (reply, { w with disk })
  | .listen _ _, w => ("Address already in use (os error 98)", w)

def run {α : Type} (p : Program α) (w : World) : α × World := p.run answer w

end World

end Stowage
