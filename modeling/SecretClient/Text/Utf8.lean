/-!
# UTF-8

Reading bytes as characters. `Utf8.items` splits any byte sequence into items: a character for
each well-formed piece and `none` for each *maximal subpart* of an ill-formed one, that is the
longest prefix of what could have become a character. Two readings come from it: `Utf8.lossy`
writes U+FFFD for every `none`, and `Utf8.chars?` accepts only sequences without one.

## Termination

The reader is a machine that takes one byte at a time, so it recurses on the byte list.
-/

namespace SecretClient.Utf8

/-- What is owed after the first bytes of a character: the bits read, how many bytes are still
due, and the least and the greatest value that the next one may have. -/
structure Pending where
  bits : Nat
  due : Nat
  low : Nat := 0x80
  high : Nat := 0xBF
deriving DecidableEq, Repr

/-- The effect of a byte that begins a character. -/
inductive Lead where
  /-- A character of one byte. -/
  | single (c : Char)
  /-- The first byte of a longer character. -/
  | opens (p : Pending)
  /-- A byte with which no character begins. -/
  | stray
deriving DecidableEq, Repr

/-- What a first byte says. The ranges of the second byte after `E0`, `ED`, `F0` and `F4` leave out
overlong forms, surrogates and values above U+10FFFF. -/
def lead (b : Nat) : Lead :=
  if b < 0x80 then .single (Char.ofNat b)
  else if b < 0xC2 then .stray
  else if b < 0xE0 then .opens ⟨b - 0xC0, 1, 0x80, 0xBF⟩
  else if b = 0xE0 then .opens ⟨0, 2, 0xA0, 0xBF⟩
  else if b = 0xED then .opens ⟨0xD, 2, 0x80, 0x9F⟩
  else if b < 0xF0 then .opens ⟨b - 0xE0, 2, 0x80, 0xBF⟩
  else if b = 0xF0 then .opens ⟨0, 3, 0x90, 0xBF⟩
  else if b < 0xF4 then .opens ⟨b - 0xF0, 3, 0x80, 0xBF⟩
  else if b = 0xF4 then .opens ⟨4, 3, 0x80, 0x8F⟩
  else .stray

/-- Reads on from a state: `none` between characters, the pending character within one. A byte
that cannot continue the pending character ends it as ill-formed and is read again as a first
byte. -/
def itemsFrom : Option Pending → List UInt8 → List (Option Char)
  | none, [] => []
  | some _, [] => [none]
  | none, b :: bs =>
    match lead b.toNat with
    | .single c => some c :: itemsFrom none bs
    | .opens p => itemsFrom (some p) bs
    | .stray => none :: itemsFrom none bs
  | some p, b :: bs =>
    if p.low ≤ b.toNat ∧ b.toNat ≤ p.high then
      if p.due = 1 then some (Char.ofNat (p.bits * 64 + (b.toNat - 0x80))) :: itemsFrom none bs
      else itemsFrom (some ⟨p.bits * 64 + (b.toNat - 0x80), p.due - 1, 0x80, 0xBF⟩) bs
    else
      none :: match lead b.toNat with
        | .single c => some c :: itemsFrom none bs
        | .opens q => itemsFrom (some q) bs
        | .stray => none :: itemsFrom none bs

/-- The items of a byte sequence. -/
def items (bytes : List UInt8) : List (Option Char) := itemsFrom none bytes

/-- The text of any byte sequence, with U+FFFD for each ill-formed piece. -/
def lossy (bytes : List UInt8) : List Char := (items bytes).map (·.getD '\uFFFD')

/-- The text of a well-formed byte sequence. -/
def chars? (bytes : List UInt8) : Option (List Char) := (items bytes).mapM id

/-- The bytes of a text. -/
def encode (text : List Char) : List UInt8 := text.flatMap String.utf8EncodeChar

end SecretClient.Utf8
