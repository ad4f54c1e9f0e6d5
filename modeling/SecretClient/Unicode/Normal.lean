import SecretClient.Unicode.Composition

/-!
# Normalization Form C

A text is taken apart into its canonical decomposition, its marks are put in the order of their
classes, and then each starter is composed with what follows it as far as possible.

## Termination

No decomposition takes more than a few steps, so the number of steps is bounded by a constant; the
other functions recurse on the list.
-/

namespace SecretClient.Unicode

/-- The parts of a Hangul syllable. -/
def hangulParts? (n : Nat) : Option (List Nat) :=
  if 0xAC00 ≤ n && n ≤ 0xD7A3 then
    let i := n - 0xAC00
    let lv := [0x1100 + i / 588, 0x1161 + i % 588 / 28]
    some (if i % 28 = 0 then lv else lv ++ [0x11A7 + i % 28])
  else none

/-- The Hangul syllable that two parts make. -/
def hangulPair? (first second : Nat) : Option Nat :=
  if 0x1100 ≤ first && first < 0x1113 && 0x1161 ≤ second && second < 0x1176 then
    some (0xAC00 + (first - 0x1100) * 588 + (second - 0x1161) * 28)
  else if 0xAC00 ≤ first && first ≤ 0xD7A3 && (first - 0xAC00) % 28 == 0 &&
      0x11A8 ≤ second && second < 0x11C3 then
    some (first + (second - 0x11A7))
  else none

/-- The canonical decomposition of a code point, taken at most `steps` levels deep. Below U+00C0
nothing decomposes. -/
def decomposed : Nat → Nat → List Nat
  | 0, n => [n]
  | steps + 1, n =>
    if n < 0xC0 then [n]
    else match hangulParts? n with
      | some parts => parts
      | none => match decomposition? n with
        | none => [n]
        | some (first, second) =>
          decomposed steps first ++ if second = 0 then [] else decomposed steps second

/-- Puts a code point in front of an ordered text: behind the marks of a lower class. -/
def placeMark (n : Nat) : List Nat → List Nat
  | [] => [n]
  | m :: rest =>
    if 0 < combiningClass m && combiningClass m < combiningClass n then m :: placeMark n rest
    else n :: m :: rest

/-- The code point that two compose to. No second part lies below U+0300. -/
def composed? (first second : Nat) : Option Nat :=
  if second < 0x300 then none
  else match hangulPair? first second with
    | some n => some n
    | none => composition? first second

/-- Composes what follows a starter. `held` are the marks since the starter that did not compose,
last one first. -/
def composeFrom (starter : Nat) (held : List Nat) : List Nat → List Nat
  | [] => starter :: held.reverse
  | n :: rest =>
    let free := match held with
      | [] => true
      | m :: _ => combiningClass m < combiningClass n
    match if free then composed? starter n else none with
    | some p => composeFrom p held rest
    | none =>
      if combiningClass n = 0 then starter :: (held.reverse ++ composeFrom n [] rest)
      else composeFrom starter (n :: held) rest

/-- Composes a decomposed text; marks before the first starter stay. -/
def compose : List Nat → List Nat
  | [] => []
  | n :: rest => if combiningClass n = 0 then composeFrom n [] rest else n :: compose rest

/-- The Normalization Form C of a text. -/
def normalForm (text : List Char) : List Char :=
  let parts := text.flatMap fun c => decomposed 8 c.toNat
  (compose (parts.foldr placeMark [])).map Char.ofNat

end SecretClient.Unicode
