import Stowage.Failure
import Stowage.Program
import Stowage.Record
import Stowage.Tenant
/-!
# Stowage — the record store

Each large value becomes one file in the directory of its tenant, named for its record id. A record is
written beside its place and then renamed, so that a reader never sees half of one. Files are only
removed by asking for it.
-/

namespace Stowage

/-- The directory of a tenant's records, the size above which values are moved there, and the time
that one access may take. -/
structure RecordStore where
  dir : String
  threshold : Nat
  deadline : Duration
deriving DecidableEq, Repr

namespace RecordStore

def make (root tenant : String) (threshold : Nat) (deadline : Duration) :
    Except Config.Error RecordStore := do
  Tenant.check tenant
  .ok ⟨Path.join root tenant, threshold, deadline⟩

def fileName (id : String) : String := id ++ ".lmo"

/-- The name of a record file that is still being written. -/
def stagingName (id : String) : String := id ++ ".lmo.tmp"

/-- The path of a record file. Ids of any other form than record ids are refused. -/
def recordPath (s : RecordStore) (id : String) : Except Failure String :=
  if ZBase32.isId id then .ok (Path.join s.dir (fileName id))
  else .error (.invalidReference (.malformedId id))

/-- Makes a change to files, and names the step and the path if it fails. -/
def step (s : RecordStore) (kind : FileStep) (path : String) (change : Disk.Change) :
    Program (Except Failure Unit) :=
  .call (.change change) fun reply =>
    .done <| match reply with
      | none => .error (.timeout s.deadline)
      | some (.error why) => .error (.transport 0 (.file kind path why))
      | some (.ok ()) => .ok ()

/-- Writes the file of a record with its data: the directory, the file beside its place, the renaming.
-/
def writeRecord (s : RecordStore) (record : Record) : Program (Except Failure Unit) := do
  match ← s.step .create s.dir (.createDirs s.dir) with
  | .error failure => pure (.error failure)
  | .ok () =>
    let path := Path.join s.dir (fileName record.id)
    let staging := Path.join s.dir (stagingName record.id)
    match ← s.step .write staging (.write staging record.toJson.print) with
    | .error failure => pure (.error failure)
    -- only now does a reader find the record
    | .ok () => s.step .rename path (.rename staging path)

/-- Stores a value with the given text if the text is over the threshold. What is given back is the
record without its data. -/
def store (s : RecordStore) (value : Json) (bytes : Bytes) :
    Program (Except Failure (Option Record)) :=
  if bytes.length ≤ s.threshold then .done (.ok none)
  else do
    let draw ← Program.perform .draw
    let record := Record.reference (Record.idOf (Uuid.ofRandom draw)) bytes
    match ← s.writeRecord { record with data := some value } with
    | .error failure => pure (.error failure)
    | .ok () => pure (.ok (some record))

def accessFailure (id path : String) : Disk.Error → Failure
  | .notFound => .notFound id
  | why => .transport 0 (.file .access path why)

/-- Checks that a record is of the kind that was asked for, and the one that was asked for. -/
def check (id path : String) (record : Record) : Except Failure Record :=
  if record.magic ≠ Record.magicNumber then
    .error (.invalidReference (.badMagic path record.magic))
  else if record.version ≠ Record.currentVersion then
    .error (.invalidReference (.unsupportedVersion path record.version))
  else if record.id ≠ id then .error (.invalidReference (.foreignRecord path record.id))
  else .ok record

def decode (id path : String) (content : Bytes) : Except Failure Record :=
  match Record.read content with
  | .error fault => .error (.encoding fault)
  | .ok record => check id path record

def load (s : RecordStore) (id : String) : Program (Except Failure Record) :=
  match s.recordPath id with
  | .error failure => .done (.error failure)
  | .ok path =>
    .call (.read path) fun reply =>
      .done <| match reply with
        | none => .error (.timeout s.deadline)
        | some (.error why) => .error (accessFailure id path why)
        | some (.ok content) => decode id path content

def loadFrom (s : RecordStore) (value : Json) : Program (Except Failure Record) :=
  match (value.get? "id").bind Json.toText? with
  | some id => s.load id
  | none => .done (.error (.invalidReference .recordWithoutId))

def delete (s : RecordStore) (id : String) : Program (Except Failure Unit) :=
  match s.recordPath id with
  | .error failure => .done (.error failure)
  | .ok path =>
    .call (.change (.remove path)) fun reply =>
      .done <| match reply with
        | none => .error (.timeout s.deadline)
        | some (.error why) => .error (accessFailure id path why)
        | some (.ok ()) => .ok ()

end RecordStore

end Stowage
