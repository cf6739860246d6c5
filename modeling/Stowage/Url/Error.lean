/-!
# Stowage — errors in URLs

Why a text is not an absolute URL.
-/

namespace Stowage.Url

inductive Error where
  | emptyHost
  | invalidName
  | invalidPort
  | invalidIpv4
  | invalidIpv6
  | invalidHostCharacter
  | relative
deriving DecidableEq, Repr

def Error.message : Error → String
  | emptyHost => "empty host"
  | invalidName => "invalid international domain name"
  | invalidPort => "invalid port number"
  | invalidIpv4 => "invalid IPv4 address"
  | invalidIpv6 => "invalid IPv6 address"
  | invalidHostCharacter => "invalid domain character"
  | relative => "relative URL without a base"

end Stowage.Url
