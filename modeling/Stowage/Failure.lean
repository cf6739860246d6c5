import Stowage.Chunk.Call
import Stowage.Config.Error
import Stowage.Duration
import Stowage.Json.Fault
/-!
# Stowage — failures

Every way in which moving values out of a message, or back into it, can fail. Timeouts, unknown
references and transport faults are kept apart, so that callers can treat them differently.
-/

namespace Stowage

/-- Why something that looks like a reference cannot be followed. -/
inductive BadReference where
  | emptyId
  | idNotText
  | missingId
  | noTotalSize (id : String)
  | pathNotText (id : String)
  | topLevelField (id path : String)
  | recordWithoutId
  | recordWithoutData (id : String)
  | malformedId (id : String)
  | badMagic (path : String) (magic : Nat)
  | unsupportedVersion (path : String) (version : Nat)
  | foreignRecord (path id : String)
deriving DecidableEq, Repr

def BadReference.message : BadReference → String
  | emptyId => "empty reference id"
  | idNotText => "reference id is not a string"
  | missingId => "missing reference id"
  | noTotalSize id => s!"reference {id} has no valid total size"
  | pathNotText id => s!"reference {id} has a non-string field path"
  | topLevelField id path => s!"top-level reference {id} names field '{path}'"
  | recordWithoutId => "record has no id"
  | recordWithoutData id => s!"record {id} has no data"
  | malformedId id => "malformed object id " ++ Quoted.write id
  | badMagic path magic => s!"{path} has bad magic 0x" ++ String.ofList (Nat.toDigits 16 magic)
  | unsupportedVersion path version => s!"{path} has unsupported version {version}"
  | foreignRecord path id => s!"{path} holds record {id}"

inductive FileStep where
  | create
  | write
  | rename
  | access
deriving DecidableEq, Repr

/-- What a message says before the path of a failed step. -/
def FileStep.label : FileStep → String
  | create => "create "
  | write => "write "
  | rename => "rename "
  | access => ""

inductive TransportFault where
  | call (why : Chunk.CallError)
  | windowTooLong (size maximum : Nat)
  | overrun (total : Nat)
  | endedEarly (received total : Nat)
  | file (step : FileStep) (path : String) (why : Disk.Error)
deriving DecidableEq, Repr

def TransportFault.message : TransportFault → String
  | call why => why.message
  | windowTooLong size maximum => s!"chunk of {size} bytes exceeds maximum {maximum}"
  | overrun total => s!"chunk overruns declared size {total}"
  | endedEarly received total => s!"payload ended after {received} of {total} bytes"
  | file step path why => s!"{step.label}{path}: {why.message}"

inductive Failure where
  | notFound (id : String)
  | timeout (deadline : Duration)
  | invalidReference (why : BadReference)
  | transport (offset : Nat) (why : TransportFault)
  | encoding (why : Json.Fault)
  | config (why : Config.Error)
deriving DecidableEq, Repr

namespace Failure

def message : Failure → String
  | notFound id => s!"reference not found: {id}"
  | timeout deadline => s!"chunk transfer timed out after {deadline.text}"
  | invalidReference why => s!"invalid reference: {why.message}"
  | transport offset why => s!"transport error at offset {offset}: {why.message}"
  | encoding why => s!"encoding error: {why.message}"
  | config why => s!"configuration error: {why.message}"

def isTimeout : Failure → Bool
  | timeout _ => true
  | _ => false

def isNotFound : Failure → Bool
  | notFound _ => true
  | _ => false

end Failure

/-- The failure of a transfer whose call at `offset` failed. -/
def Chunk.CallError.atOffset (why : Chunk.CallError) (offset : Nat) : Failure :=
  match why with
  | .notFound ref => .notFound ref
  | why => .transport offset (.call why)

end Stowage
