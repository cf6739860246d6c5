import Stowage.Backend.Local
import Stowage.Backend.Remote
import Stowage.Chunk.Client
import Stowage.Config
/-!
# Stowage — choosing a backend

The backend that a configuration asks for: the remote one if it is enabled and a chunk host can be
reached, else the local one if it is enabled, else none. The configuration need not be valid.
-/

namespace Stowage.Config

def transfer (c : Config) : Chunk.Transfer :=
  Chunk.Transfer.make c.remote.chunkSize (Duration.ofSeconds c.remote.deadlineSeconds)

/-- The record store of a configuration, enabled or not. -/
def recordStore (c : Config) : Except Error RecordStore :=
  RecordStore.make c.records.root c.records.tenant c.records.threshold
    (Duration.ofSeconds c.records.deadlineSeconds)

/-- The backend of a configuration. `hasHost` says whether a chunk host can be called. -/
def backend (c : Config) (hasHost : Bool) : Except Error (Option (Backend Program)) :=
  if c.remote.enabled && hasHost then .ok (some (Remote.backend c.transfer c.remote.threshold))
  else if c.records.enabled then do
    let store ← c.recordStore
    .ok (some (Local.backend store))
  else .ok none

/-- The endpoint of a configuration, if the remote place is enabled and has one. -/
def endpoint (c : Config) : Except Error (Option Chunk.Endpoint) :=
  match c.remote.endpoint with
  | some text => if c.remote.enabled then (Chunk.Endpoint.ofText text).map some else .ok none
  | none => .ok none

def connect (c : Config) : Except Error (Option (Backend Program)) := do
  match ← c.endpoint with
  | some e => return (← c.backend true).map fun b => b.overHttp e
  | none => c.backend false

end Stowage.Config
