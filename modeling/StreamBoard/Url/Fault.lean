/-!
# Fault — why a text is no address
-/

namespace StreamBoard.Url

inductive Fault
  /-- The text does not start with a scheme. -/
  | relativeWithoutBase
  | emptyHost
  | invalidPort
  | invalidIpv4
  | invalidIpv6
  /-- A host name has a character that host names may not have. -/
  | invalidDomainName
  /-- The same for the host of a scheme that is not known. -/
  | invalidHostCharacter
deriving DecidableEq

def Fault.message : Fault → String
  | .relativeWithoutBase => "relative URL without a base"
  | .emptyHost => "empty host"
  | .invalidPort => "invalid port number"
  | .invalidIpv4 => "invalid IPv4 address"
  | .invalidIpv6 => "invalid IPv6 address"
  | .invalidDomainName => "invalid international domain name"
  | .invalidHostCharacter => "invalid domain character"

end StreamBoard.Url
