/-!
# Digits

Digits of numbers in a base up to sixteen, and the decimal and hexadecimal text of a number.
-/

namespace SecretClient.Digit

/-- The value of a hexadecimal digit, in either case. -/
def hex? (c : Char) : Option Nat :=
  if '0' ≤ c ∧ c ≤ '9' then some (c.toNat - 48)
  else if 'a' ≤ c ∧ c ≤ 'f' then some (c.toNat - 87)
  else if 'A' ≤ c ∧ c ≤ 'F' then some (c.toNat - 55)
  else none

/-- The value of a digit of the base, if it is one. -/
def value? (base : Nat) (c : Char) : Option Nat := (hex? c).filter (· < base)

/-- The number that a list of digits writes, most significant digit first. -/
def number (base : Nat) (digits : List Nat) : Nat :=
  digits.foldl (fun n d => n * base + d) 0

/-- Reads a text in which every character is a digit of the base; the empty text writes zero. -/
def read? (base : Nat) (text : List Char) : Option Nat :=
  (text.mapM (value? base)).map (number base)

/-- The text of a number in a base, with lower-case letters. -/
def text (base n : Nat) : List Char := Nat.toDigits base n

/-- The upper-case hexadecimal digit of a value below sixteen. -/
def upperHex (n : Nat) : Char :=
  if n < 10 then Char.ofNat (48 + n) else Char.ofNat (55 + n)

end SecretClient.Digit
