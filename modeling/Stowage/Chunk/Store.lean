import Stowage.Chunk.Call
/-!
# Stowage — the chunk store

A chunk store keeps payloads under their references while their chunks arrive, in order and without
gaps; a chunk may be sent again. A payload can be read once all of it has arrived. Only its owner
removes it. Sizes and offsets are unsigned 64-bit numbers, and sums that leave that range are
refused.
-/

namespace Stowage.Chunk

/-- What has arrived of a payload of a known size. -/
structure Payload where
  total : Nat
  data : Bytes
deriving DecidableEq, Repr

def Payload.isComplete (p : Payload) : Bool := p.data.length = p.total

/-- The payloads by reference, and the largest size that is accepted. -/
structure Store where
  maximum : Nat
  payloads : List (String × Payload)
deriving DecidableEq, Repr

/-- Sums of offsets and sizes stay below this. -/
def offsetLimit : Nat := 1 <<< 64

/-- The largest payload accepted unless another size is asked for. -/
def defaultMaximum : Nat := 1073741824

namespace Store

def empty (maximum : Nat) : Store := ⟨maximum, []⟩

def find? (s : Store) (ref : String) : Option Payload :=
  (s.payloads.find? fun p => p.1 == ref).map Prod.snd

/-- Whether any chunk of a payload has arrived. -/
def contains (s : Store) (ref : String) : Bool := (s.find? ref).isSome

def size (s : Store) : Nat := s.payloads.length

/-- Puts a payload under a reference, in place of the one that is there. -/
def put (s : Store) (ref : String) (payload : Payload) : Store :=
  if s.contains ref then
    { s with payloads := s.payloads.map fun p => if p.1 == ref then (ref, payload) else p }
  else { s with payloads := s.payloads ++ [(ref, payload)] }

/-- Removes a payload. Whether there was one is known beforehand from `contains`. -/
def remove (s : Store) (ref : String) : Store :=
  { s with payloads := s.payloads.filter fun p => p.1 != ref }

/-- The bytes of a payload after a chunk has arrived at an offset that leaves no gap. A chunk within
what is there replaces that part; one that goes beyond replaces everything from its offset on. -/
def patch (data chunk : Bytes) (offset : Nat) : Bytes :=
  if offset + chunk.length ≤ data.length then
    data.take offset ++ chunk ++ data.drop (offset + chunk.length)
  else data.take offset ++ chunk

/-- Where a request ends, unless it is refused on its own account. -/
def checkWindow (s : Store) (r : StoreRequest) : Except Refusal Nat :=
  if s.maximum < r.total then .error (.aboveMaximum r.total s.maximum)
  else
    let stop := r.offset + r.data.length
    -- an end outside of 64 bits is refused like one beyond the total
    if ¬(stop < offsetLimit ∧ stop ≤ r.total) then
      .error (.beyondTotal r.offset r.data.length r.total)
    else if r.isLast ∧ stop ≠ r.total then .error (.finalEndsEarly stop r.total)
    else .ok stop

/-- The bytes that are there for a request, unless they do not go with it. -/
def checkStored (s : Store) (r : StoreRequest) : Except Refusal Bytes :=
  match s.find? r.ref with
  | some payload =>
    if payload.total ≠ r.total then .error (.totalDiffers r.total payload.total r.ref)
    else if payload.data.length < r.offset then
      .error (.gap r.offset payload.data.length r.ref)
    else .ok payload.data
  -- a payload starts with its first chunk
  | none => if 0 < r.offset then .error (.gap r.offset 0 r.ref) else .ok []

/-- Stores a chunk. A refused request changes nothing. -/
def store (s : Store) (r : StoreRequest) : Except Refusal Store := do
  let _ ← s.checkWindow r
  let data ← s.checkStored r
  .ok (s.put r.ref ⟨r.total, patch data r.data r.offset⟩)

/-- Reads a window of a complete payload. -/
def get (s : Store) (r : GetRequest) : Except CallError Window :=
  match s.find? r.ref with
  | none => .error (.notFound r.ref)
  | some payload =>
    if ¬payload.isComplete then
      .error (.refused (.incomplete r.ref payload.data.length payload.total))
    else if payload.total < r.offset then
      .error (.refused (.beyondEnd r.offset payload.total))
    else
      let stop := min (r.offset + r.length) payload.total
      .ok ⟨(payload.data.drop r.offset).take (stop - r.offset), payload.total,
        payload.total ≤ stop⟩

def answerStore (s : Store) (r : StoreRequest) : Except CallError Unit × Store :=
  match s.store r with
  | .ok s => (.ok (), s)
  | .error why => (.error (.refused why), s)

end Store

end Stowage.Chunk
