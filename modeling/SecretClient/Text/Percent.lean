import SecretClient.Text.Digit
import SecretClient.Text.Utf8

/-!
# Percent-encoding

A character is encoded by writing each byte of its UTF-8 form as `%` and two upper-case
hexadecimal digits. Which characters are encoded is a parameter: each part of a URL has a set of
its own.
-/

namespace SecretClient.Percent

/-- The three characters that write a byte. -/
def byte (b : UInt8) : List Char :=
  ['%', Digit.upperHex (b.toNat / 16), Digit.upperHex (b.toNat % 16)]

/-- The characters that stand for a character of a part with the given set. -/
def char (set : Char → Bool) (c : Char) : List Char :=
  if set c then (String.utf8EncodeChar c).flatMap byte else [c]

/-- Encodes the characters in the set and leaves the others as they are. -/
def encode (set : Char → Bool) (text : List Char) : List Char := text.flatMap (char set)

/-- Reads `%` and two hexadecimal digits as the byte they write, and any other character as its
own bytes. A `%` without two digits after it stands for itself. -/
def decode : List Char → List UInt8
  | [] => []
  | '%' :: a :: b :: rest =>
    match Digit.hex? a, Digit.hex? b with
    | some x, some y => UInt8.ofNat (x * 16 + y) :: decode rest
    | _, _ => 0x25 :: decode (a :: b :: rest)
  | c :: rest => String.utf8EncodeChar c ++ decode rest

end SecretClient.Percent
