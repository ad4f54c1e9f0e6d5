/-!
# Punycode

The encoding of a label of a domain name in ASCII (RFC 3492). The ASCII characters stand first,
then a hyphen, then the other characters in the order of their values, each as the difference from
the one before it, written in a number system whose digits have changing thresholds.

## Termination

Each loop has a measure: a difference that is divided, the characters still to be written, or the
input still to be read.
-/

namespace SecretClient.Punycode

/-- The digit of a value below 36: `a` to `z`, then `0` to `9`. -/
def digit (n : Nat) : Char := if n < 26 then Char.ofNat (97 + n) else Char.ofNat (22 + n)

/-- The value of a digit, in either case. -/
def value? (c : Char) : Option Nat :=
  if 'a' ≤ c ∧ c ≤ 'z' then some (c.toNat - 97)
  else if 'A' ≤ c ∧ c ≤ 'Z' then some (c.toNat - 65)
  else if '0' ≤ c ∧ c ≤ '9' then some (c.toNat - 22)
  else none

/-- The threshold of the digit at weight step `k`, between 1 and 26. -/
def threshold (bias k : Nat) : Nat := max 1 (min 26 (k - bias))

/-- Divides by 35 until at most 455 is left, and counts 36 for each division. -/
def settle (delta k : Nat) : Nat × Nat :=
  if 455 < delta then settle (delta / 35) (k + 36) else (delta, k)
termination_by delta
decreasing_by omega

/-- The bias after a difference, when `count` characters are in place. -/
def adapt (delta count : Nat) (first : Bool) : Nat :=
  let d := if first then delta / 700 else delta / 2
  let (d, k) := settle (d + d / count) 0
  k + 36 * d / (d + 38)

/-- Writes a difference as digits. -/
def digits (bias k delta : Nat) : List Char :=
  let t := threshold bias k
  if delta < t then [digit delta]
  else digit (t + (delta - t) % (36 - t)) :: digits bias (k + 36) ((delta - t) / (36 - t))
termination_by delta
decreasing_by
  have hle := Nat.div_le_self (delta - threshold bias k) (36 - threshold bias k)
  have hpos : 1 ≤ threshold bias k := Nat.le_max_left ..
  omega

/-- The state of the encoder: the digits written so far, last one first, the difference since the
last character written, the bias, and the number of characters in place. -/
structure Writer where
  out : List Char
  delta : Nat
  bias : Nat
  count : Nat

/-- Passes one character of the text in the round of the value `n`. -/
def Writer.pass (basic n : Nat) (w : Writer) (c : Char) : Writer :=
  if c.toNat < n then { w with delta := w.delta + 1 }
  else if c.toNat = n then
    { out := (digits w.bias 36 w.delta).reverse ++ w.out, delta := 0,
      bias := adapt w.delta (w.count + 1) (w.count == basic), count := w.count + 1 }
  else w

/-- One round for each value, in rising order, from the value `at_` on. -/
def rounds (text : List Char) (basic : Nat) : List Nat → Nat → Writer → Writer
  | [], _, w => w
  | n :: rest, at_, w =>
    let w := text.foldl (Writer.pass basic n) { w with delta := w.delta + (n - at_) * (w.count + 1) }
    rounds text basic rest (n + 1) { w with delta := w.delta + 1 }

/-- Encodes a label. -/
def encode (label : List Char) : List Char :=
  let basic := label.filter (·.toNat < 0x80)
  let values := ((label.filter (0x80 ≤ ·.toNat)).map Char.toNat).mergeSort.eraseReps
  let w := rounds label basic.length values 0x80
    { out := [], delta := 0, bias := 72, count := basic.length }
  basic ++ (if basic.isEmpty then [] else ['-']) ++ w.out.reverse

/-- Reads one difference: adds each digit times its weight to `i`, up to the first digit below its
threshold. Weights stay below 2³². The rest is shorter than the text. -/
def readDelta (bias k weight i : Nat) :
    (text : List Char) → Option (Nat × { rest : List Char // rest.length < text.length })
  | [] => none
  | c :: rest => do
    let d ← value? c
    let i := i + d * weight
    let t := threshold bias k
    if i ≥ 0x100000000 then none
    else if d < t then some (i, ⟨rest, by simp⟩)
    else if weight * (36 - t) ≥ 0x100000000 then none
    else
      let (j, ⟨r, h⟩) ← readDelta bias (k + 36) (weight * (36 - t)) i rest
      some (j, ⟨r, by simp only [List.length_cons]; omega⟩)

/-- Puts the characters that the text writes into their places. -/
def place (out : List Char) (n i bias : Nat) (text : List Char) : Option (List Char) :=
  if text.isEmpty then some out
  else
    match readDelta bias 36 1 i text with
    | none => none
    | some (j, ⟨rest, _⟩) =>
      let count := out.length + 1
      let n := n + j / count
      if n.isValidChar then
        place (out.insertIdx (j % count) (Char.ofNat n)) n (j % count + 1)
          (adapt (j - i) count (i == 0)) rest
      else none
termination_by text.length

/-- The text up to the last hyphen, and what follows it; all of the text follows if there is no
hyphen or only one at the start. -/
def splitLast (text : List Char) : List Char × List Char :=
  let tail := (text.reverse.takeWhile (· ≠ '-')).reverse
  let before := text.take (text.length - tail.length - 1)
  if before.isEmpty then ([], text) else (before, tail)

/-- Decodes a label. -/
def decode? (text : List Char) : Option (List Char) :=
  let (basic, rest) := splitLast text
  place basic 0x80 0 72 rest

end SecretClient.Punycode
