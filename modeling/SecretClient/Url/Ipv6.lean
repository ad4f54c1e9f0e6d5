import SecretClient.Text.Digit

/-!
# IPv6 addresses

An address is eight pieces of 16 bits. In a text they are groups of one to four hexadecimal digits
with colons between them; `::` stands for one or more zero pieces, once, and the last two pieces may
be written as an IPv4 address. The written form has lower-case digits without leading zeros and
shortens the first of the longest runs of two or more zero pieces.

## Termination

Reading recurses on the text or on the number of groups; the search for a run recurses on the
pieces.
-/

namespace SecretClient

/-- An IPv6 address as eight pieces. -/
structure Ipv6 where
  pieces : List Nat
  length_eq : pieces.length = 8
  lt : ∀ p ∈ pieces, p < 0x10000

namespace Ipv6

/-- A group of one to four hexadecimal digits. -/
def piece? (group : List Char) : Option Nat :=
  if 1 ≤ group.length ∧ group.length ≤ 4 then Digit.read? 16 group else none

/-- A number of the IPv4 part: at most 255, without leading zeros. -/
def byte? (text : List Char) : Option Nat :=
  if text.isEmpty ∨ 3 < text.length ∨ (text.head? = some '0' ∧ 1 < text.length) then none
  else (Digit.read? 10 text).filter (· < 256)

/-- The two pieces that an IPv4 address at the end writes. -/
def tail? (text : List Char) : Option (List Nat) :=
  match (text.splitOn '.').mapM byte? with
  | some [a, b, c, d] => some [a * 256 + b, c * 256 + d]
  | _ => none

/-- The pieces of groups with colons between them, the last of which may be an IPv4 address. -/
def groups? : List (List Char) → Option (List Nat)
  | [] => some []
  | [last] => if last.contains '.' then tail? last else (piece? last).map ([·])
  | group :: rest => do return (← piece? group) :: (← groups? rest)

/-- The pieces of a text; the empty text has none. -/
def pieces? (text : List Char) : Option (List Nat) :=
  if text.isEmpty then some [] else groups? (text.splitOn ':')

/-- Cuts a text at the first `::`. -/
def cut? : List Char → Option (List Char × List Char)
  | ':' :: ':' :: rest => some ([], rest)
  | c :: rest => (cut? rest).map fun (before, after) => (c :: before, after)
  | [] => none

/-- All eight pieces of a text, or fewer or more if it is wrong. -/
def expand? (text : List Char) : Option (List Nat) :=
  match cut? text with
  | none => pieces? text
  | some (before, after) => do
    if before.contains '.' then none
    let front ← pieces? before
    let back ← pieces? after
    if 7 < front.length + back.length then none
    else some (front ++ List.replicate (8 - front.length - back.length) 0 ++ back)

/-- Reads an address. -/
def read? (text : List Char) : Option Ipv6 := do
  let pieces ← expand? text
  if h : pieces.length = 8 ∧ ∀ p ∈ pieces, p < 0x10000 then some ⟨pieces, h.1, h.2⟩ else none

/-- How many zeros a list begins with. -/
def zeros (pieces : List Nat) : Nat := (pieces.takeWhile (· = 0)).length

/-- The length of the longest run of zeros, where it is one of two or more. -/
def longest : List Nat → Nat
  | [] => 1
  | p :: rest => max (zeros (p :: rest)) (longest rest)

/-- Cuts at the first run of `n` zeros: what stands before and behind it. -/
def around? (n : Nat) : List Nat → Option (List Nat × List Nat)
  | [] => none
  | p :: rest =>
    if n ≤ zeros (p :: rest) then some ([], (p :: rest).drop n)
    else (around? n rest).map fun (before, after) => (p :: before, after)

/-- Groups with colons between them. -/
def join (pieces : List Nat) : List Char := [':'].intercalate (pieces.map (Digit.text 16))

/-- The written form. -/
def text (a : Ipv6) : List Char :=
  match if 2 ≤ longest a.pieces then around? (longest a.pieces) a.pieces else none with
  | some (before, after) => join before ++ [':', ':'] ++ join after
  | none => join a.pieces

end Ipv6

end SecretClient
