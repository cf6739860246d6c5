import Stowage.Failure
import Stowage.Program
/-!
# Stowage — transfers

A transfer moves a whole payload to or from a chunk host in windows of a fixed size, strictly in
order, one call at a time. One deadline covers the whole transfer. When it runs out, the chunks that
were written stay where they are.
-/

namespace Stowage.Chunk

/-- How payloads are cut, and how long a whole transfer may take. -/
structure Transfer where
  chunkSize : Nat
  one_le_chunkSize : 1 ≤ chunkSize
  deadline : Duration

namespace Transfer

/-- A transfer with a given chunk size; zero counts as one. -/
def make (chunkSize : Nat) (deadline : Duration) : Transfer :=
  ⟨max chunkSize 1, Nat.le_max_right .., deadline⟩

/-- The windows of `data`, with their offsets from `offset` on. There are no more windows than bytes.
-/
def windowsFrom (size : Nat) : Nat → Nat → Bytes → List (Nat × Bytes)
  | 0, _, _ => []
  | _ + 1, _, [] => []
  | fuel + 1, offset, b :: data =>
    (offset, (b :: data).take size) ::
      windowsFrom size fuel (offset + size) ((b :: data).drop size)

def windows (size : Nat) (data : Bytes) : List (Nat × Bytes) :=
  windowsFrom size data.length 0 data

/-- The requests that store a payload, in order. -/
def plan (t : Transfer) (ref : String) (data : Bytes) : List StoreRequest :=
  (windows t.chunkSize data).map fun w =>
    ⟨ref, w.2, w.1, data.length, data.length ≤ w.1 + w.2.length⟩

/-- Makes store calls one after the other, up to the first that fails. -/
def storeAll (t : Transfer) : List StoreRequest → Nat → Program (Except Failure Unit)
  | [], _ => .done (.ok ())
  | r :: rest, patience =>
    .call (.store r patience) fun reply =>
      match reply with
      | none => .done (.error (.timeout t.deadline))
      | some (_, .error why) => .done (.error (why.atOffset r.offset))
      | some (spent, .ok ()) => t.storeAll rest (patience - spent)

def store (t : Transfer) (ref : String) (data : Bytes) : Program (Except Failure Unit) :=
  t.storeAll (t.plan ref data) t.deadline.nanoseconds

/-- The payload that was fetched, if all of it has arrived. -/
def complete (total : Nat) (received : Bytes) : Except Failure Bytes :=
  if received.length = total then .ok received
  else .error (.transport received.length (.endedEarly received.length total))

/-- What a window adds to what was received: the bytes to go on with and whether they are the last,
or why the window is not acceptable. -/
def accept (t : Transfer) (total : Nat) (received : Bytes) (w : Window) :
    Except Failure (Bytes × Bool) :=
  -- an empty window would bring the transfer no further
  if w.data.isEmpty then .ok (received, true)
  else if t.chunkSize < w.data.length then
    .error (.transport received.length (.windowTooLong w.data.length t.chunkSize))
  else if total < received.length + w.data.length then
    .error (.transport received.length (.overrun total))
  else .ok (received ++ w.data, w.isLast)

/-- Fetches what is missing of a payload. Every accepted window that is not the last brings a byte, so
there are no more calls than missing bytes. -/
def fetchFrom (t : Transfer) (ref : String) (total : Nat) :
    Nat → Bytes → Nat → Program (Except Failure Bytes)
  | 0, received, _ => .done (complete total received)
  | fuel + 1, received, patience =>
    if received.length < total then
      .call (.get ⟨ref, received.length, t.chunkSize⟩ patience) fun reply =>
        match reply with
        | none => .done (.error (.timeout t.deadline))
        | some (_, .error why) => .done (.error (why.atOffset received.length))
        | some (spent, .ok window) =>
          match t.accept total received window with
          | .error failure => .done (.error failure)
          | .ok (received, true) => .done (complete total received)
          | .ok (received, false) => t.fetchFrom ref total fuel received (patience - spent)
    else .done (complete total received)

def fetch (t : Transfer) (ref : String) (total : Nat) : Program (Except Failure Bytes) :=
  t.fetchFrom ref total total [] t.deadline.nanoseconds

end Transfer

end Stowage.Chunk
