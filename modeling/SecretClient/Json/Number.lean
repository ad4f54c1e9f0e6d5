import SecretClient.Decimal.Shortest
import SecretClient.Text.Digit

/-!
# Numbers

A number token is read in two steps: first its digits (`Literal`), then its value (`Number`). An
integer between -2⁶³ and 2⁶⁴-1 keeps its value exactly; any other number becomes a floating point
number, and so does `-0`, which no integer is.

The conversion to floating point takes the digits into a number of 64 bits as far as they fit, and
then scales that by a power of ten, with at most one rounding each. A result beyond the largest
finite number is an error.

Floating point numbers are written with the fewest digits that denote them, so they always show a
point or an exponent.
-/

namespace SecretClient.Json

/-- The digits of a number token. Digits are values from 0 to 9, the most significant first. -/
structure Literal where
  negative : Bool
  whole : List Nat
  /-- The digits behind the point, if there is one. -/
  fraction : List Nat
  /-- The exponent, if there is one: whether it is negative, and its digits. -/
  exponent : Option (Bool × List Nat)
deriving DecidableEq, Repr

/-- A number: an integer, or a floating point number. -/
inductive Number where
  | integer (n : Int)
  | float (x : Float)
deriving Repr

/-- The least and the greatest value that is kept as an integer. -/
def minInteger : Int := -Nat.pow 2 63
@[inherit_doc minInteger]
def maxInteger : Int := Nat.pow 2 64 - 1

/-- Appends digits to a number of 64 bits while they fit; the second part counts the digits that no
longer did. -/
def absorb (n : Nat) : List Nat → Nat × Nat
  | [] => (n, 0)
  | d :: rest =>
    if n * 10 + d < Nat.pow 2 64 then absorb (n * 10 + d) rest else (n, (d :: rest).length)

/-- A natural number as the nearest floating point number. -/
def floatOfNat (n : Nat) : Float := Float.ofScientific n false 0

/-- The floating point number nearest to a power of ten. -/
def power10 (k : Nat) : Float := Float.ofScientific 1 false k

/-- Divides by a power of ten, in steps of at most 10³⁰⁸. -/
def divideByPower (x : Float) (k : Nat) : Float :=
  if k ≤ 308 then x / power10 k
  else if x == 0 then x
  else divideByPower (x / power10 308) (k - 308)
termination_by k
decreasing_by omega

/-- Scales by a power of ten; `none` if the result is beyond the largest finite number. -/
def scaleByPower? (x : Float) (k : Int) : Option Float :=
  if k < 0 then some (divideByPower x (-k).toNat)
  else if k.toNat ≤ 308 then
    let y := x * power10 k.toNat
    if y.isInf then none else some y
  else if x == 0 then some x
  else none

/-- The value of an exponent, or how many of its digits stand behind the one with which it exceeds
31 bits. -/
def exponentValue (n : Nat) : List Nat → Except Nat Nat
  | [] => .ok n
  | d :: rest => if n * 10 + d < Nat.pow 2 31 then exponentValue (n * 10 + d) rest else .error rest.length

namespace Literal

/-- The floating point number of a literal. On failure, how many digits of the exponent are not even
looked at. -/
def toFloat (l : Literal) : Except Nat Float :=
  let (n, dropped) := absorb 0 l.whole
  let (n, ignored) := absorb n l.fraction
  let place : Int := dropped - (l.fraction.length - ignored : Nat)
  let signed (x : Float) : Float := if l.negative then -x else x
  let scaled (k : Int) : Except Nat Float :=
    match scaleByPower? (floatOfNat n) k with
    | some x => .ok (signed x)
    | none => .error 0
  match l.exponent with
  | none => scaled place
  | some (negative, digits) =>
    match exponentValue 0 digits with
    | .ok e => scaled (if negative then place - e else place + e)
    | .error unread => if n ≠ 0 ∧ negative = false then .error unread else .ok (signed 0)

/-- The value that an integer token writes. -/
def toInt (l : Literal) : Int :=
  let n : Int := Digit.number 10 l.whole
  if l.negative then -n else n

/-- Whether a token has neither point nor exponent. -/
def isInteger (l : Literal) : Bool := l.fraction.isEmpty && l.exponent.isNone

/-- Whether a token writes a negative zero. -/
def isNegativeZero (l : Literal) : Bool := l.negative && Digit.number 10 l.whole == 0

/-- The number of a literal. On failure, how many digits of the exponent are not even looked at. -/
def toNumber (l : Literal) : Except Nat Number :=
  if l.isInteger ∧ l.isNegativeZero = false ∧ minInteger ≤ l.toInt ∧ l.toInt ≤ maxInteger then
    .ok (.integer l.toInt)
  else l.toFloat.map .float

end Literal

/-! ## Writing -/

/-- How floating point numbers are written: from which place of the first digit to which one they
are written without an exponent. -/
structure FloatLayout where
  lowest : Int
  highest : Int

/-- Numbers from 10⁻⁵ to below 10¹⁶ are written without an exponent. -/
def floatLayout : FloatLayout := ⟨-5, 15⟩

/-- Writes digits whose first one stands at the place `first`. Without an exponent there is a digit
on both sides of the point; an exponent always has a sign. -/
def FloatLayout.write (layout : FloatLayout) (digits : List Char) (first : Int) : List Char :=
  if first < layout.lowest ∨ layout.highest < first then
    (match digits with
      | [] => []
      | [d] => [d]
      | d :: rest => d :: '.' :: rest) ++
    'e' :: (if first < 0 then '-' else '+') :: Digit.text 10 first.natAbs
  else if first < 0 then
    ['0', '.'] ++ List.replicate (first.natAbs - 1) '0' ++ digits
  else
    let whole := first.toNat + 1
    let padded := digits ++ List.replicate (whole - digits.length) '0'
    let behind := padded.drop whole
    padded.take whole ++ '.' :: (if behind.isEmpty then ['0'] else behind)

/-- The mantissa and the exponent of a positive finite number with the given bits. -/
def binaryOfBits (bits : Nat) : Binary :=
  let field : Nat := bits / Nat.pow 2 52
  let low : Nat := bits % Nat.pow 2 52
  if field = 0 then ⟨low, -1074, false⟩
  else ⟨low + Nat.pow 2 52, (field : Int) - 1075, low = 0 ∧ 1 < field⟩

/-- The text of a floating point number with the given sign and the bits of its absolute value. -/
def floatText (negative : Bool) (bits : Nat) : List Char :=
  (if negative then ['-'] else []) ++
    if bits = 0 then ['0', '.', '0']
    else
      let d := Decimal.shortest (binaryOfBits bits)
      let (digits, zeros) := Decimal.significant d.coefficient
      floatLayout.write digits (d.exponent + zeros + digits.length - 1)

/-- The text of a number. -/
def Number.text : Number → List Char
  | integer n => (if n < 0 then ['-'] else []) ++ Digit.text 10 n.natAbs
  | float x => floatText (Nat.pow 2 63 ≤ x.toBits.toNat) (x.toBits.toNat % Nat.pow 2 63)

end SecretClient.Json
