import Stowage.Chunk.Call
import Stowage.Disk.Step
/-!
# Stowage — programs

A program is what the library does to the outside world: it ends with a result, or makes a call and
goes on with the reply. What a world is stays open. A world that answers every call runs a program
to its end; several programs can also be run by turns, one call at a time.

Calls that can take time carry the patience that is left, in nanoseconds. A reply that would come
later does not come at all, and then the call has done nothing.
-/

namespace Stowage

inductive Call where
  /-- Sixteen random bytes. -/
  | draw
  /-- A window is to be stored by the chunk host. -/
  | store (request : Chunk.StoreRequest) (patience : Nat)
  /-- A window is wanted from the chunk host. -/
  | get (request : Chunk.GetRequest) (patience : Nat)
  /-- A request goes to a place. -/
  | send (place : Http.Place) (request : Http.Request) (patience : Nat)
  /-- All of the standard input is wanted. -/
  | input
  /-- The content of a file is wanted. -/
  | read (path : String)
  /-- Files are to be changed. -/
  | change (step : Disk.Change)
  /-- A chunk host is to be run on a port, for payloads up to a size. -/
  | listen (port maximum : Nat)

/-- A reply with the nanoseconds it took, or nothing within the patience of the call. -/
abbrev Timed (α : Type) := Option (Nat × α)

/-- What a call is answered with. File calls take no time or never end; the reply to `listen` says why
the host stopped. -/
def Call.Reply : Call → Type
  | draw => Bytes
  | store _ _ => Timed (Except Chunk.CallError Unit)
  | get _ _ => Timed (Except Chunk.CallError Chunk.Window)
  | send _ _ _ => Timed (Except Http.Fault Http.Response)
  | input => Bytes
  | read _ => Option (Except Disk.Error Bytes)
  | change _ => Option (Except Disk.Error Unit)
  | listen _ _ => String

/-- A sequence of calls, each depending on the replies before it, that ends with a result. -/
inductive Program (α : Type) where
  | done (result : α)
  | call (c : Call) (next : c.Reply → Program α)

/-- A world answers calls and changes by doing so. -/
abbrev Answering (σ : Type) := (c : Call) → σ → c.Reply × σ

namespace Program

variable {α β σ : Type}

def bind : Program α → (α → Program β) → Program β
  | done a, f => f a
  | call c next, f => call c fun reply => (next reply).bind f

instance : Monad Program where
  pure := done
  bind := bind

def perform (c : Call) : Program c.Reply := call c done

def run (world : Answering σ) : Program α → σ → α × σ
  | done a, s => (a, s)
  | call c next, s => (next (world c s).1).run world (world c s).2

end Program

end Stowage
