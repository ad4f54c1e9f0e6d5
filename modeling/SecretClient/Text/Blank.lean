/-!
# Blanks

The characters with the Unicode property `White_Space`, and texts without blanks at their ends.
-/

namespace SecretClient.Blank

/-- The characters with the property `White_Space`. -/
def isBlank (c : Char) : Bool :=
  let n := c.toNat
  (0x09 ≤ n && n ≤ 0x0D) || n == 0x20 || n == 0x85 || n == 0xA0 || n == 0x1680 ||
  (0x2000 ≤ n && n ≤ 0x200A) || n == 0x2028 || n == 0x2029 || n == 0x202F || n == 0x205F ||
  n == 0x3000

/-- Leaves out the characters at both ends for which `p` holds. -/
def trimWhile (p : Char → Bool) (text : List Char) : List Char :=
  ((text.dropWhile p).reverse.dropWhile p).reverse

/-- Leaves out the blanks at both ends. -/
def trim (text : List Char) : List Char := trimWhile isBlank text

end SecretClient.Blank
