import Stowage.Chunk.Host
import Stowage.Http.Wire
/-!
# Stowage — peers

Who is at the other end of a connection: nobody, a chunk host, or a machine that answers one request
after the other from a script, whatever they are. None of them encrypts what it says.
-/

namespace Stowage.World

open Http

/-- A place with the address of this machine for its name. -/
def address (p : Place) : Place :=
  if p.machine = "localhost" then { p with machine := "127.0.0.1" } else p

/-- What a script sends back: nothing, or an answer, of whose body another length may be announced
than it has. -/
inductive Scripted where
  | hangUp
  | answer (status : Nat) (headers : List (String × Bytes)) (body : Bytes)
      (announced : Option Nat)
deriving DecidableEq, Repr

/-- What arrives of what a script sends back. -/
def Scripted.reply : Scripted → Except Fault Response
  | hangUp => .error .hungUp
  | answer status headers body announced =>
    .ok ⟨status, headers.map fun h => (h.1, Wire.trim h.2), Wire.bodyOf status announced body⟩

/-- Who listens, and where. A script keeps the requests it was asked, the latest first. -/
inductive Peer where
  | nobody
  | host (place : Place)
  | script (place : Place) (answers : List Scripted) (asked : List Request)
deriving DecidableEq, Repr

namespace Peer

/-- The bare answer of a script that has come to its end. -/
def bare : Response := ⟨204, [], some []⟩

/-- Sends a request to a place. The chunk store is the one of the host. -/
def exchange (peer : Peer) (store : Chunk.Store) (place : Place) (request : Request) :
    Except Fault Response × Peer × Chunk.Store :=
  match peer with
  | nobody => (.error .refused, peer, store)
  | host home =>
    if address place = home then
      let (response, store) := Chunk.Host.answer store request
      (.ok response, peer, store)
    else (.error .refused, peer, store)
  | script home answers asked =>
    if address place = home then
      let reply := match answers.head? with
        | some answer => answer.reply
        | none => .ok bare
      (reply, script home answers.tail (request :: asked), store)
    else (.error .refused, peer, store)

end Peer

end Stowage.World
