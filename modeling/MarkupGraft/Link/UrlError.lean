/-! Why a text is no URL. -/

namespace MarkupGraft

inductive UrlError where
  | emptyHost
  /-- A domain that cannot be written in ASCII. -/
  | internationalName
  | serviceNumber
  /-- An address of four bytes. -/
  | shortAddress
  /-- An address of sixteen bytes. -/
  | longAddress
  | domainCharacter
  /-- A reference without anything that it could be resolved against. -/
  | noBase
  | opaqueBase
  deriving DecidableEq, Repr

def UrlError.message : UrlError → String
  | .emptyHost => "empty host"
  | .internationalName => "invalid international domain name"
  | .serviceNumber => "invalid port number"
  | .shortAddress => "invalid IPv4 address"
  | .longAddress => "invalid IPv6 address"
  | .domainCharacter => "invalid domain character"
  | .noBase => "relative URL without a base"
  | .opaqueBase => "relative URL with a cannot-be-a-base base"

end MarkupGraft
