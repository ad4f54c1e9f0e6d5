/-!
# Why a text is no URL
-/

namespace SecretClient.Url

/-- Why a text is no URL. -/
inductive ParseError where
  | emptyHost
  | badDomainName
  | badPort
  | badIpv4
  | badIpv6
  | badHostCharacter
  | missingBase
  | opaqueBase
deriving DecidableEq, Repr

/-- The text of an error. -/
def ParseError.message : ParseError → String
  | emptyHost => "empty host"
  | badDomainName => "invalid international domain name"
  | badPort => "invalid port number"
  | badIpv4 => "invalid IPv4 address"
  | badIpv6 => "invalid IPv6 address"
  | badHostCharacter => "invalid domain character"
  | missingBase => "relative URL without a base"
  | opaqueBase => "relative URL with a cannot-be-a-base base"

end SecretClient.Url
