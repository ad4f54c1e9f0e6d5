/-!
# Percent-encode sets

Which characters each part of a URL spells as percent-encoded bytes. The sets are given by the
ASCII characters that they add; controls and all characters outside ASCII belong to each of them.
-/

namespace SecretClient.EncodeSet

/-- Controls and the characters outside ASCII: the set of an opaque path and an opaque host. -/
def control (c : Char) : Bool := c.toNat < 0x20 || 0x7F ≤ c.toNat

/-- The set of a fragment. -/
def fragment (c : Char) : Bool := control c || [' ', '"', '<', '>', '\x60'].contains c

/-- The set of a path segment. -/
def path (c : Char) : Bool := fragment c || ['#', '?', '\x7b', '\x7d'].contains c

/-- The set of a user name and a password. -/
def userinfo (c : Char) : Bool :=
  path c || ['/', ':', ';', '=', '@', '[', '\\', ']', '^', '|'].contains c

/-- The set of a query; a scheme with a known port adds the apostrophe. -/
def query (special : Bool) (c : Char) : Bool :=
  control c || [' ', '"', '#', '<', '>'].contains c || (special && c == '\'')

end SecretClient.EncodeSet
