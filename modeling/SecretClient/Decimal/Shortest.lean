import SecretClient.Text.Digit

/-!
# The shortest decimal

A binary number `m · 2^q` stands for all the real numbers that round to it, an interval around it.
Of the decimal numbers in the interval, `Decimal.shortest` gives one with the fewest digits, and of
those the nearest; of two that are equally near it gives the even one.

On the grid of decimals with a given last place only the two neighbours of the number itself can be
the nearest in the interval, so the search tests these two for one digit, two digits and so on.
-/

namespace SecretClient

/-- The number `coefficient · 10^exponent`. -/
structure Decimal where
  coefficient : Nat
  exponent : Int
deriving DecidableEq, Repr

/-- The number `mantissa · 2^exponent` as a rounding target. `lowest` marks a mantissa below which the
next number is only half as far away as the one above. -/
structure Binary where
  mantissa : Nat
  exponent : Int
  lowest : Bool := false
deriving DecidableEq, Repr

/-- A fraction with a positive denominator. -/
structure Fraction where
  num : Nat
  den : Nat
deriving DecidableEq, Repr

namespace Fraction

/-- Whether one fraction is below another. -/
def lt (a b : Fraction) : Bool := a.num * b.den < b.num * a.den

/-- `n · b^e` for an integer `e`. -/
def scale (n b : Nat) (e : Int) : Fraction :=
  if 0 ≤ e then ⟨n * b.pow e.toNat, 1⟩ else ⟨n, b.pow (-e).toNat⟩

/-- The place of the first digit: the largest `p` with `10^p` at most the fraction, which is
positive. -/
def firstPlace (v : Fraction) : Int :=
  if v.den ≤ v.num then ((Digit.text 10 (v.num / v.den)).length : Int) - 1
  else
    let below := (v.den + v.num - 1) / v.num - 1
    if below = 0 then 0 else -((Digit.text 10 below).length : Int)

/-- The whole part of the fraction divided by `10^place`. -/
def wholeAt (v : Fraction) (place : Int) : Nat :=
  if 0 ≤ place then v.num / (v.den * Nat.pow 10 place.toNat)
  else v.num * Nat.pow 10 (-place).toNat / v.den

end Fraction

namespace Binary

/-- The number itself. -/
def value (b : Binary) : Fraction := .scale (4 * b.mantissa) 2 (b.exponent - 2)

/-- The lower end of the interval that rounds to the number. -/
def lower (b : Binary) : Fraction :=
  .scale (4 * b.mantissa - if b.lowest then 1 else 2) 2 (b.exponent - 2)

/-- The upper end of the interval that rounds to the number. -/
def upper (b : Binary) : Fraction := .scale (4 * b.mantissa + 2) 2 (b.exponent - 2)

/-- Whether a fraction rounds to the number. The ends of the interval do if the mantissa is even. -/
def covers (b : Binary) (v : Fraction) : Bool :=
  if b.mantissa % 2 = 0 then !v.lt b.lower && !b.upper.lt v else b.lower.lt v && v.lt b.upper

end Binary

namespace Decimal

/-- The number as a fraction. -/
def value (d : Decimal) : Fraction := .scale d.coefficient 10 d.exponent

/-- The distance of two fractions. -/
def distance (a b : Fraction) : Fraction :=
  ⟨(a.num * b.den - b.num * a.den) + (b.num * a.den - a.num * b.den), a.den * b.den⟩

/-- The nearer of two neighbours on a grid, of those that round to the number. -/
def pick? (b : Binary) (low high : Decimal) : Option Decimal :=
  match b.covers low.value, b.covers high.value with
  | false, false => none
  | true, false => some low
  | false, true => some high
  | true, true =>
    let toLow := distance b.value low.value
    let toHigh := distance b.value high.value
    if toLow.lt toHigh then some low
    else if toHigh.lt toLow then some high
    else if low.coefficient % 2 = 0 then some low else some high

/-- The first hit among the grids with `count` and more digits, when `left` grids are left. -/
def search (b : Binary) (count : Nat) : Nat → Decimal
  | 0 => ⟨0, 0⟩
  | left + 1 =>
    let place := b.value.firstPlace - count + 1
    let low := b.value.wholeAt place
    match pick? b ⟨low, place⟩ ⟨low + 1, place⟩ with
    | some d => d
    | none => search b (count + 1) left

/-- The shortest decimal that rounds to a positive number of up to 53 bits; seventeen digits are
always enough. -/
def shortest (b : Binary) : Decimal := search b 1 17

/-- The digits of a coefficient without the zeros at its end, and how many zeros those are. -/
def significant (coefficient : Nat) : List Char × Nat :=
  let digits := Digit.text 10 coefficient
  let kept := (digits.reverse.dropWhile (· = '0')).reverse
  (kept, digits.length - kept.length)

end Decimal

end SecretClient
