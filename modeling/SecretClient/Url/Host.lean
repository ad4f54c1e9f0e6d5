import SecretClient.Text.Percent
import SecretClient.Url.Domain
import SecretClient.Url.EncodeSet
import SecretClient.Url.Error
import SecretClient.Url.Ipv4
import SecretClient.Url.Ipv6

/-!
# Hosts

A host is a name or an address. The host of a scheme with a known port is a domain name in its ASCII
form, and a name that ends in a number must be an IPv4 address; the host of any other scheme is an
opaque text.
-/

namespace SecretClient

/-- The host of a URL. -/
inductive Host where
  | name (text : List Char)
  | ipv4 (address : Ipv4)
  | ipv6 (address : Ipv6)

namespace Host

open Url (ParseError)

/-- The written form. -/
def text : Host → List Char
  | name t => t
  | ipv4 a => a.text
  | ipv6 a => '[' :: a.text ++ [']']

/-- Whether nothing is written. -/
def isEmpty : Host → Bool
  | name [] => true
  | _ => false

/-- Reads what stands between brackets. -/
def bracketed (inner : List Char) : Except ParseError Host :=
  match if inner.getLast? = some ']' then Ipv6.read? inner.dropLast else none with
  | some a => .ok (.ipv6 a)
  | none => .error .badIpv6

/-- Reads a domain name in its ASCII form. -/
def ofDomain (domain : List Char) : Except ParseError Host :=
  if domain.isEmpty then .error .emptyHost
  else if Ipv4.isDue domain then
    match Ipv4.read? domain with
    | some a => .ok (.ipv4 a)
    | none => .error .badIpv4
  else .ok (.name domain)

/-- Reads the host of a scheme with a known port. -/
def read : List Char → Except ParseError Host
  | '[' :: inner => bracketed inner
  | t =>
    match (Utf8.chars? (Percent.decode t)).bind Domain.ascii? with
    | some domain => ofDomain domain
    | none => .error .badDomainName

/-- The ASCII characters that no opaque host holds. -/
def isForbidden (c : Char) : Bool :=
  ['\x00', '\t', '\n', '\r', ' ', '#', '/', ':', '<', '>', '?', '@', '[', '\\', ']', '^', '|'].contains
    c

/-- Reads the host of any other scheme. -/
def readOpaque : List Char → Except ParseError Host
  | '[' :: inner => bracketed inner
  | t =>
    if t.any isForbidden then .error .badHostCharacter
    else .ok (.name (Percent.encode EncodeSet.control t))

end Host

end SecretClient
