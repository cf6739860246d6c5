import Stowage.Duration
import Stowage.Environment
import Stowage.Json.Value
import Stowage.Tenant
import Stowage.Disk.Step
import Stowage.Yaml.Decoder
/-!
# Stowage — configurations

A configuration says which places large values can be moved to, and from which size on. It is read
from YAML text, every member of which may be missing; variables of the environment override parts of
it. Reading does not check whether a configuration can be used: `validate` does.
-/

namespace Stowage

structure RemoteSettings where
  enabled : Bool
  endpoint : Option String
  threshold : Nat
  chunkSize : Nat
  deadlineSeconds : Nat
deriving DecidableEq, Repr

structure LocalSettings where
  enabled : Bool
  root : String
  tenant : String
  threshold : Nat
  deadlineSeconds : Nat
deriving DecidableEq, Repr

structure Config where
  remote : RemoteSettings
  records : LocalSettings
deriving DecidableEq, Repr

namespace Config

/-- The seconds that an access may take unless they are given. -/
def defaultDeadline : Nat := 120

/-- The settings of a remote place of which nothing is said. -/
def defaultRemote : RemoteSettings := ⟨false, none, 2097152, 1048576, defaultDeadline⟩

def defaultLocal : LocalSettings :=
  ⟨false, "/tmp/offload", "default", 262144, defaultDeadline⟩

/-! ## Reading -/

def remoteFields : List Yaml.Decoder.Field :=
  [⟨"enabled", fun _ _ => Yaml.Decoder.flag⟩,
    ⟨"endpoint", Yaml.Decoder.optionalText "a string"⟩,
    ⟨"threshold", fun _ _ => Yaml.Decoder.natural "usize"⟩,
    ⟨"chunk_size", fun _ _ => Yaml.Decoder.natural "usize"⟩,
    ⟨"deadline_secs", fun _ _ => Yaml.Decoder.natural "u64"⟩]

def localFields : List Yaml.Decoder.Field :=
  [⟨"enabled", fun _ _ => Yaml.Decoder.flag⟩,
    ⟨"root", fun _ _ => Yaml.Decoder.text "path string"⟩,
    ⟨"tenant", fun _ _ => Yaml.Decoder.text "a string"⟩,
    ⟨"threshold", fun _ _ => Yaml.Decoder.natural "usize"⟩,
    ⟨"deadline_secs", fun _ _ => Yaml.Decoder.natural "u64"⟩]

def decoder : Yaml.Decoder :=
  Yaml.Decoder.record "struct OffloadConfig"
    [⟨"remote", fun _ _ => Yaml.Decoder.record "struct RemoteStoreConfig" remoteFields⟩,
      ⟨"local", fun _ _ => Yaml.Decoder.record "struct LocalStoreConfig" localFields⟩]

/-- What was read of the settings of the remote place, on top of the defaults. -/
def remoteOf (data : Yaml.Data) : RemoteSettings where
  enabled := (data.flag? "enabled").getD defaultRemote.enabled
  endpoint := (data.optional? "endpoint").getD defaultRemote.endpoint
  threshold := (data.natural? "threshold").getD defaultRemote.threshold
  chunkSize := (data.natural? "chunk_size").getD defaultRemote.chunkSize
  deadlineSeconds := (data.natural? "deadline_secs").getD defaultRemote.deadlineSeconds

def localOf (data : Yaml.Data) : LocalSettings where
  enabled := (data.flag? "enabled").getD defaultLocal.enabled
  root := (data.text? "root").getD defaultLocal.root
  tenant := (data.text? "tenant").getD defaultLocal.tenant
  threshold := (data.natural? "threshold").getD defaultLocal.threshold
  deadlineSeconds := (data.natural? "deadline_secs").getD defaultLocal.deadlineSeconds

def ofData (data : Yaml.Data) : Config where
  remote := ((data.get? "remote").map remoteOf).getD defaultRemote
  records := ((data.get? "local").map localOf).getD defaultLocal

def ofText (text : String) : Except Error Config :=
  match decoder.run text with
  | .ok data => .ok (ofData data)
  | .error why => .error (.yaml why)

def ofFile (path : String) (content : Except Disk.Error Bytes) : Except Error Config :=
  match content with
  | .error why => .error (.unreadable path why)
  | .ok bytes =>
    match Utf8.decode? bytes with
    | none => .error (.unreadable path .notText)
    | some text => ofText text

/-! ## The environment -/

/-- A configuration with the parts that the environment overrides. An endpoint given there enables the
remote place. -/
def override (c : Config) (env : Environment) : Config where
  remote := match env.get? "OFFLOAD_REMOTE_ENDPOINT" with
    | some endpoint => { c.remote with enabled := true, endpoint := some endpoint }
    | none => c.remote
  records := { c.records with
    root := (env.get? "OFFLOAD_LOCAL_ROOT").getD c.records.root
    tenant := (env.get? "OFFLOAD_TENANT").getD c.records.tenant }

/-! ## Checking -/

def checkRemote (s : RemoteSettings) : Except Error Unit :=
  if (s.endpoint.getD "").isEmpty then .error .noEndpoint
  else if s.threshold = 0 ∨ s.chunkSize = 0 then .error .remoteSizes
  else if s.deadlineSeconds = 0 then .error .remoteDeadline
  else .ok ()

def checkLocal (s : LocalSettings) : Except Error Unit :=
  if s.threshold = 0 then .error .localThreshold
  else if s.deadlineSeconds = 0 then .error .localDeadline
  else Tenant.check s.tenant

/-- Refuses a configuration that cannot be used. Places that are not enabled are not looked at. -/
def validate (c : Config) : Except Error Unit := do
  if c.remote.enabled then checkRemote c.remote
  if c.records.enabled then checkLocal c.records

def tenantDir (c : Config) : String := Path.join c.records.root c.records.tenant

def toJson (c : Config) : Json :=
  .object [
    ("remote", .object [
      ("enabled", .bool c.remote.enabled),
      ("endpoint", (c.remote.endpoint.map Json.string).getD .null),
      ("threshold", .number (.int c.remote.threshold)),
      ("chunk_size", .number (.int c.remote.chunkSize)),
      ("deadline_secs", .number (.int c.remote.deadlineSeconds))]),
    ("local", .object [
      ("enabled", .bool c.records.enabled),
      ("root", .string c.records.root),
      ("tenant", .string c.records.tenant),
      ("threshold", .number (.int c.records.threshold)),
      ("deadline_secs", .number (.int c.records.deadlineSeconds))])]

end Config

end Stowage
