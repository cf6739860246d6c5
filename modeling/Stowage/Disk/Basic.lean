import Stowage.Disk.Step
/-!
# Stowage — a disk

A disk in memory: directories, files and pipes by their place below the root, and a working
directory that relative paths start from. Every step either happens as a whole or fails and changes
nothing, except that directories which were made before one could not be made stay. Reading or
writing a pipe never ends.
-/

namespace Stowage

namespace Disk

/-- The names that lead from the root to a place. -/
abbrev Place := List String

inductive Node where
  | directory
  | file (content : Bytes)
  | pipe
deriving DecidableEq, Repr

end Disk

/-- What is where, and the working directory. The root is always a directory. -/
structure Disk where
  nodes : List (Disk.Place × Disk.Node)
  working : Disk.Place
deriving DecidableEq, Repr

namespace Disk

def node? (d : Disk) (place : Place) : Option Node :=
  if place = [] then some .directory else (d.nodes.find? fun n => n.1 == place).map Prod.snd

def set (d : Disk) (place : Place) (node : Node) : Disk :=
  { d with nodes := (place, node) :: d.nodes.filter fun n => n.1 != place }

def erase (d : Disk) (place : Place) : Disk :=
  { d with nodes := d.nodes.filter fun n => n.1 != place }

/-- A path in parts: where it starts, the names in it, and whether it asks for a directory. -/
structure Route where
  start : Place
  names : List String
  wantsDirectory : Bool
deriving DecidableEq, Repr

/-- The longest name of a file, in bytes. -/
def maxName : Nat := 255

/-- The longest path, in bytes. -/
def maxPath : Nat := 4095

/-- Takes a path apart. A single dot stays where it is. -/
def route (d : Disk) (path : String) : Except Error Route :=
  if path.toList.any (· = '\x00') then .error .zeroByte
  else if path.isEmpty then .error .notFound
  else if maxPath < path.utf8ByteSize then .error .nameTooLong
  else
    let parts := (path.toList.splitOn '/').map String.ofList
    .ok ⟨if path.startsWith "/" then [] else d.working,
      parts.filter fun name => name ≠ "" ∧ name ≠ ".",
      parts.getLast? = some "" ∨ parts.getLast? = some "."⟩

def child (here : Place) (name : String) : Place :=
  if name = ".." then here.dropLast else here ++ [name]

/-- Walks through directories. -/
def enter (d : Disk) : Place → List String → Except Error Place
  | here, [] => .ok here
  | here, name :: rest =>
    if maxName < name.utf8ByteSize then .error .nameTooLong
    else
      match d.node? (child here name) with
      | none => .error .notFound
      | some .directory => d.enter (child here name) rest
      | some _ => .error .notDirectory

/-- A place that a path leads to: its directory is there, it may be empty itself. -/
structure Target where
  place : Place
  wantsDirectory : Bool
deriving DecidableEq, Repr

/-- Follows a path up to its last name. -/
def locate (d : Disk) (path : String) : Except Error Target := do
  let r ← d.route path
  match r.names.getLast? with
  | none => .ok ⟨r.start, true⟩
  | some name =>
    let here ← d.enter r.start r.names.dropLast
    if maxName < name.utf8ByteSize then .error .nameTooLong
    else .ok ⟨child here name, r.wantsDirectory⟩

/-- Reads a file; nothing if that never ends. -/
def read (d : Disk) (path : String) : Option (Except Error Bytes) :=
  match d.locate path with
  | .error e => some (.error e)
  | .ok target =>
    match d.node? target.place with
    | none => some (.error .notFound)
    | some .directory => some (.error .isDirectory)
    | some (.file content) =>
      some (if target.wantsDirectory then .error .notDirectory else .ok content)
    | some .pipe => if target.wantsDirectory then some (.error .notDirectory) else none

/-- Makes the directories of a path that are missing, from a place on. Those that were made before one
cannot be made stay, and are given with the failure. Once one was made (`begun`), what is in the way is
found by trying to make a directory there. -/
def createDirsFrom (d : Disk) (begun : Bool) : Place → List String → Except (Error × Disk) Disk
  | _, [] => .ok d
  | here, name :: rest =>
    if maxName < name.utf8ByteSize then .error (.nameTooLong, d)
    else
      match d.node? (child here name) with
      | none =>
        (d.set (child here name) .directory).createDirsFrom true (child here name) rest
      | some .directory => d.createDirsFrom begun (child here name) rest
      | some _ => .error (if begun ∨ rest.isEmpty then .exists else .notDirectory, d)

/-- Makes a directory and the directories above it, unless they are there. The empty path is there. A
failure is given with the disk that it leaves. -/
def makeDirs (d : Disk) (path : String) : Except (Error × Disk) Disk :=
  if path.isEmpty then .ok d
  else
    match d.route path with
    | .error e => .error (e, d)
    | .ok r => d.createDirsFrom false r.start r.names

/-- Makes a directory and the directories above it: the disk where they all are. -/
def createDirs (d : Disk) (path : String) : Except Error Disk := (d.makeDirs path).mapError Prod.fst

/-- Makes or replaces a file; nothing if that never ends. -/
def write (d : Disk) (path : String) (content : Bytes) : Option (Except Error Disk) :=
  match d.locate path with
  | .error e => some (.error e)
  | .ok target =>
    match d.node? target.place with
    | some .directory => some (.error .isDirectory)
    | some .pipe => if target.wantsDirectory then some (.error .notDirectory) else none
    | some (.file _) =>
      some (if target.wantsDirectory then .error .notDirectory
        else .ok (d.set target.place (.file content)))
    | none =>
      some (if target.wantsDirectory then .error .isDirectory
        else .ok (d.set target.place (.file content)))

/-- Gives a file or a pipe another path. -/
def rename (d : Disk) (source target : String) : Except Error Disk := do
  let source ← d.locate source
  let target ← d.locate target
  match d.node? source.place with
  | none => .error .notFound
  | some .directory => .error .isDirectory
  | some node =>
    match d.node? target.place with
    | some .directory => .error .isDirectory
    | _ =>
      if source.wantsDirectory ∨ target.wantsDirectory then .error .notDirectory
      else .ok ((d.erase source.place).set target.place node)

def remove (d : Disk) (path : String) : Except Error Disk := do
  let target ← d.locate path
  match d.node? target.place with
  | none => .error .notFound
  | some .directory => .error .isDirectory
  | some _ => if target.wantsDirectory then .error .notDirectory else .ok (d.erase target.place)

/-- Makes a change; nothing if that never ends. A failure is given with the disk that it leaves. -/
def change (d : Disk) : Change → Option (Except (Error × Disk) Disk)
  | .createDirs path => some (d.makeDirs path)
  | .write path content => (d.write path content).map (Except.mapError (·, d))
  | .rename source target => some ((d.rename source target).mapError (·, d))
  | .remove path => some ((d.remove path).mapError (·, d))

/-- The change as a call is answered: the outcome, and the disk afterwards. -/
def apply (d : Disk) (step : Change) : Option (Except Error Unit) × Disk :=
  match d.change step with
  | none => (none, d)
  | some (.error (e, d)) => (some (.error e), d)
  | some (.ok d) => (some (.ok ()), d)

/-- An empty disk with a working directory. -/
def fresh (working : Place) : Disk :=
  ⟨(List.range working.length).map fun k => (working.take (k + 1), .directory), working⟩

/-- Everything below the working directory, by its path from there. -/
def contents (d : Disk) : List (Place × Node) :=
  d.nodes.filterMap fun n =>
    if d.working.isPrefixOf n.1 ∧ d.working ≠ n.1 then
      some (n.1.drop d.working.length, n.2)
    else none

end Disk

end Stowage
