import SecretClient.Text.Digit

/-!
# IPv4 addresses

An address is written as one to four numbers with dots between them, each in base ten, eight or
sixteen; the last number fills all the bytes that the others leave. The written form is always four
decimal numbers.
-/

namespace SecretClient

/-- An IPv4 address as a number of 32 bits. -/
structure Ipv4 where
  value : UInt32
deriving DecidableEq, Repr

namespace Ipv4

/-- A number of an address: `0x` begins base sixteen and another leading zero base eight. Nothing
behind such a beginning writes zero. -/
def number? : List Char → Option Nat
  | [] => none
  | '0' :: 'x' :: rest | '0' :: 'X' :: rest => Digit.read? 16 rest
  | '0' :: d :: rest => Digit.read? 8 (d :: rest)
  | text => Digit.read? 10 text

/-- The parts of a name between its dots; a dot at the end adds none. -/
def parts (name : List Char) : List (List Char) :=
  let all := name.splitOn '.'
  if all.getLast? = some [] then all.dropLast else all

/-- Whether a name must be read as an address: its last part is a number or all digits. -/
def isDue (name : List Char) : Bool :=
  match (parts name).getLast? with
  | none => false
  | some [] => false
  | some last => last.all Char.isDigit || (number? last).isSome

/-- Reads an address. Each number but the last fits one byte, and the last one fits what is left. -/
def read? (name : List Char) : Option Ipv4 := do
  let texts := parts name
  if 4 < texts.length then none
  let numbers ← texts.mapM number?
  let last ← numbers.getLast?
  let front := numbers.dropLast
  if front.any (255 < ·) then none
  else if Nat.pow 256 (4 - front.length) ≤ last then none
  else some ⟨UInt32.ofNat (Digit.number 256 front * Nat.pow 256 (4 - front.length) + last)⟩

/-- The four bytes. -/
def bytes (a : Ipv4) : List Nat :=
  let n := a.value.toNat
  [n / 0x1000000, n / 0x10000 % 0x100, n / 0x100 % 0x100, n % 0x100]

/-- The written form. -/
def text (a : Ipv4) : List Char := ['.'].intercalate (a.bytes.map (Digit.text 10))

end Ipv4

end SecretClient
