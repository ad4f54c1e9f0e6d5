import SecretClient.Text.Digit
import SecretClient.Unicode.Hidden

/-!
# Quoted texts

A text between quotes, as messages show it: quotes and backslashes behind a backslash, the usual
letters for tab and line ends, and any other character without a form of its own by its number in
braces.
-/

namespace SecretClient.Quoted

/-- How a character is written between quotes. -/
def encodeChar (c : Char) : List Char :=
  match c with
  | '\x00' => ['\\', '0']
  | '\t' => ['\\', 't']
  | '\r' => ['\\', 'r']
  | '\n' => ['\\', 'n']
  | '"' => ['\\', '"']
  | '\\' => ['\\', '\\']
  | c =>
    if Unicode.isHidden c then ['\\', 'u', '\x7b'] ++ Digit.text 16 c.toNat ++ ['\x7d'] else [c]

/-- A text between quotes. -/
def encode (text : List Char) : List Char := '"' :: text.flatMap encodeChar ++ ['"']

end SecretClient.Quoted
