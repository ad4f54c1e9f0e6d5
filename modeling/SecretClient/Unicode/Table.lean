/-!
# Tables of code points

A property of characters is kept as a list of numbers, from which a sorted array of ranges is read
once. Each line of such a list packs several numbers into one: its hexadecimal digits are bytes behind
a leading one, and the bytes write the numbers in base 128. Looking a code point up is a binary search
for the last range that begins at or before it.

## Termination

A line is taken apart byte by byte, with a bound on their number; the search recurses on the width of
the interval that is left.
-/

namespace SecretClient.Unicode

/-- The bytes of a line behind its leading one, in front of `done`; `count` of them at most. -/
def bytesOf : Nat → Nat → List Nat → List Nat
  | 0, _, done => done
  | count + 1, line, done =>
    match line / 0x100 with
    | 0 => done
    | front + 1 => bytesOf count (front + 1) (line % 0x100 :: done)

/-- The numbers that bytes write: a byte from 128 on is followed by more of its number. `n` is what
the bytes before have written of the first one. -/
def numbersOf (n : Nat) : List Nat → List Nat
  | [] => []
  | b :: rest =>
    if b < 0x80 then (n * 0x80 + b) :: numbersOf 0 rest else numbersOf (n * 0x80 + b % 0x80) rest

/-- The numbers that lines of up to 64 bytes write. -/
def numbers (lines : List Nat) : List Nat := lines.flatMap fun line => numbersOf 0 (bytesOf 64 line [])

/-- How many keys of a sorted array are at most `n`, given that the first `lo` are and that those
from `hi` on are not. -/
def countUpTo {α : Type} (key : α → Nat) (rows : Array α) (n lo hi : Nat) : Nat :=
  if lo < hi then
    let mid := (lo + hi) / 2
    match rows[mid]? with
    | some row => if key row ≤ n then countUpTo key rows n (mid + 1) hi
                  else countUpTo key rows n lo mid
    | none => lo
  else lo
termination_by hi - lo
decreasing_by all_goals omega

/-- The last row of a sorted array whose key is at most `n`. -/
def lastUpTo? {α : Type} (key : α → Nat) (rows : Array α) (n : Nat) : Option α :=
  match countUpTo key rows n 0 rows.size with
  | 0 => none
  | k + 1 => rows[k]?

/-- A set of code points as sorted ranges, both ends included. -/
structure Ranges where
  rows : Array (Nat × Nat)

/-- Reads ranges from pairs of numbers: the gap since the last range, and by how much the last code
point of this range exceeds its first. -/
def Ranges.rowsFrom (start : Nat) : List Nat → List (Nat × Nat)
  | gap :: more :: rest => (start + gap, start + gap + more) :: rowsFrom (start + gap + more) rest
  | _ => []

/-- The set that lines write. -/
def Ranges.ofLines (lines : List Nat) : Ranges := ⟨(rowsFrom 0 (numbers lines)).toArray⟩

/-- Whether a code point is in the set. -/
def Ranges.has (set : Ranges) (n : Nat) : Bool :=
  match lastUpTo? Prod.fst set.rows n with
  | some (_, last) => n ≤ last
  | none => false

/-- A map from code points to values, given on sorted ranges. -/
structure RangeMap where
  rows : Array (Nat × Nat × Nat)

/-- Reads ranges from triples of numbers: the gap and the length as for a set, then the value. -/
def RangeMap.rowsFrom (start : Nat) : List Nat → List (Nat × Nat × Nat)
  | gap :: more :: value :: rest =>
    (start + gap, start + gap + more, value) :: rowsFrom (start + gap + more) rest
  | _ => []

/-- The map that lines write. -/
def RangeMap.ofLines (lines : List Nat) : RangeMap := ⟨(rowsFrom 0 (numbers lines)).toArray⟩

/-- The value at a code point. -/
def RangeMap.get? (map : RangeMap) (n : Nat) : Option Nat :=
  match lastUpTo? Prod.fst map.rows n with
  | some (_, last, value) => if n ≤ last then some value else none
  | none => none

end SecretClient.Unicode
