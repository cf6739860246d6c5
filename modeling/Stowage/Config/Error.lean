import Stowage.Disk.Error
import Stowage.Url.Error
import Stowage.Yaml.Fault
/-!
# Stowage — errors of a configuration

Why a configuration cannot be read or used.
-/

namespace Stowage.Config

inductive Error where
  | unreadable (path : String) (why : Disk.Error)
  | yaml (why : Yaml.Fault)
  | noEndpoint
  | remoteSizes
  | remoteDeadline
  | localThreshold
  | localDeadline
  | tenant (name : String)
  | endpoint (text : String) (why : Url.Error)
deriving DecidableEq, Repr

def Error.message : Error → String
  | .unreadable path why => s!"{path}: {why.message}"
  | .yaml why => why.message
  | .noEndpoint => "remote store enabled without an endpoint"
  | .remoteSizes => "remote threshold and chunk_size must be positive"
  | .remoteDeadline => "remote deadline_secs must be positive"
  | .localThreshold => "local threshold must be positive"
  | .localDeadline => "local deadline_secs must be positive"
  | .tenant name => "invalid tenant id: " ++ Quoted.write name
  | .endpoint text why => s!"invalid endpoint {text}: {why.message}"

end Stowage.Config
