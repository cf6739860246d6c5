import Stowage.Backend
import Stowage.Chunk.Endpoint
import Stowage.Program
/-!
# Stowage — calls over HTTP

A program that calls a chunk host becomes a program that sends HTTP requests to an endpoint: every
call is sent as its request, and goes on with the outcome that the answer stands for. A call for
which there is no request fails at once.
-/

namespace Stowage

open Chunk

/-- Sends a request and goes on with what becomes of the answer. -/
def Chunk.Endpoint.Outgoing.send {α β : Type} (out : Endpoint.Outgoing) (patience : Nat)
    (outcome : Except Http.Fault Http.Response → α) (next : Timed α → Program β) : Program β :=
  .call (.send out.place out.request patience) fun reply =>
    next (reply.map fun timed => (timed.1, outcome timed.2))

/-- The program with its calls to a chunk host sent to an endpoint. -/
def Program.overHttp {α : Type} (e : Endpoint) : Program α → Program α
  | .done a => .done a
  | .call (.store r patience) next =>
    match e.storeRequest r with
    | .error why => (next (some (0, .error (.http why)))).overHttp e
    | .ok out => out.send patience (Endpoint.stored r.ref out.url) fun reply =>
      (next reply).overHttp e
  | .call (.get r patience) next =>
    match e.getRequest r with
    | .error why => (next (some (0, .error (.http why)))).overHttp e
    | .ok out => out.send patience (Endpoint.fetched r.ref out.url) fun reply =>
      (next reply).overHttp e
  | .call c next => .call c fun reply => (next reply).overHttp e

/-- The backend with its calls to a chunk host sent to an endpoint. -/
def Backend.overHttp (b : Backend Program) (e : Endpoint) : Backend Program :=
  { b with
    offload := fun c => (b.offload c).overHttp e
    rehydrate := fun r => (b.rehydrate r).overHttp e }

end Stowage
