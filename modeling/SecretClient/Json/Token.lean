import SecretClient.Json.Number
import SecretClient.Json.Reader

/-!
# Strings, words and numbers

The tokens of a text. A string is read in one of two ways: `string` keeps its characters, so each
escape must write one, alone or with its partner; `skippedString` only looks for the end, and lets
bytes that are no character and halves of pairs pass.
-/

namespace SecretClient.Json

/-! ## Strings -/

/-- The character that an escape with one letter writes. -/
def escapeLetter? : Char → Option Char
  | '"' => some '"'
  | '\\' => some '\\'
  | '/' => some '/'
  | 'b' => some '\x08'
  | 'f' => some '\x0C'
  | 'n' => some '\n'
  | 'r' => some '\r'
  | 't' => some '\t'
  | _ => none

/-- The value of a hexadecimal digit among the items. -/
def hexItem? (c : Option Char) : Option Nat := c.bind Digit.hex?

/-- The value of four hexadecimal digits. -/
def fourDigits? : List (Option Char) → Option Nat
  | [a, b, c, d] => do
    return Digit.number 16 [← hexItem? a, ← hexItem? b, ← hexItem? c, ← hexItem? d]
  | _ => none

/-- Reads the four digits behind `\u`. -/
def fourDigits : Reader Nat := fun s =>
  match s with
  | a :: b :: c :: d :: rest =>
    match fourDigits? [a, b, c, d] with
    | some n => .ok (n, ⟨rest, by simp only [List.length_cons]; omega⟩)
    | none => .error (short s)
  | s => .error (short s)
where
  /-- The failure where no four digits stand. -/
  short (s : Input) : Fault :=
    if inputSize s < 4 then ⟨.endInString, [], 0⟩ else ⟨.invalidEscape, s, 4⟩

/-- Whether a number is the first half of a pair that writes one character. -/
def isHighHalf (n : Nat) : Bool := 0xD800 ≤ n && n ≤ 0xDBFF

/-- Whether a number is the second half of a pair that writes one character. -/
def isLowHalf (n : Nat) : Bool := 0xDC00 ≤ n && n ≤ 0xDFFF

/-- The character that a pair of halves writes. -/
def pairChar (high low : Nat) : Char :=
  Char.ofNat (0x10000 + (high - 0xD800) * 0x400 + (low - 0xDC00))

/-- Passes the two characters that begin an escape by number. -/
def secondEscape (s : Input) : Except Fault (Rest s) :=
  match s with
  | [] => .error ⟨.endInString, [], 0⟩
  | c :: r =>
    if c ≠ some '\\' then .error ⟨.endOfEscape, c :: r, 1⟩
    else match r with
      | [] => .error ⟨.endInString, [], 0⟩
      | d :: t =>
        if d ≠ some 'u' then .error ⟨.endOfEscape, d :: t, 1⟩
        else .ok ⟨t, by simp only [List.length_cons]; omega⟩

/-- Reads what stands behind `\u`: one character, by its number or by two halves. -/
def numberedChar : Reader Char := fun s =>
  match fourDigits s with
  | .error e => .error e
  | .ok (n, r) =>
    if isLowHalf n then .error ⟨.loneSurrogate, r.1, 0⟩
    else if isHighHalf n then
      match secondEscape r.1 with
      | .error e => .error e
      | .ok r' =>
        match fourDigits r'.1 with
        | .error e => .error e
        | .ok (m, r'') =>
          if isLowHalf m then .ok (pairChar n m, (r.trans r').trans r'')
          else .error ⟨.loneSurrogate, r''.1, 0⟩
    else .ok (Char.ofNat n, r)

/-- Reads an escape behind its backslash, given the reader of what stands behind `\u`. -/
def escape {α : Type} (letter : Char → α) (numbered : Reader α) : Reader α := fun s =>
  match s with
  | [] => .error ⟨.endInString, [], 0⟩
  | c :: r =>
    if c = some 'u' then
      match numbered r with
      | .error e => .error e
      | .ok (a, r') => .ok (a, (Rest.tail c r).trans r')
    else match c.bind escapeLetter? with
      | some x => .ok (letter x, .tail c r)
      | none => .error ⟨.invalidEscape, c :: r, 1⟩

/-- Reads one character of a string, or the quote that ends it, given the readers of an escape and of
an item that is no character. -/
def stringPiece {α : Type} (letter : Char → α) (numbered : Reader α)
    (broken : (s : Input) → Except Fault α) : Reader (Option α) := fun s =>
  match s with
  | [] => .error ⟨.endInString, [], 0⟩
  | none :: r =>
    match broken (none :: r) with
    | .ok a => .ok (some a, .tail none r)
    | .error e => .error e
  | some c :: r =>
    if c = '"' then .ok (none, .tail (some c) r)
    else if c = '\\' then
      match escape letter numbered r with
      | .error e => .error e
      | .ok (a, r') => .ok (some a, (Rest.tail (some c) r).trans r')
    else if c.toNat < 0x20 then .error ⟨.controlCharacter, some c :: r, 1⟩
    else .ok (some (letter c), .tail (some c) r)

/-- Reads one character of a string that is kept. -/
def keptPiece : Reader (Option Char) :=
  stringPiece id numberedChar fun s => .error ⟨.invalidCharacter, s, 1⟩

/-- Passes one character of a string that is skipped. -/
def skippedPiece : Reader (Option Unit) :=
  stringPiece (fun _ => ()) (fun s => mapValue (fun _ => ()) (fourDigits s)) fun _ => .ok ()

/-- Reads a string behind its opening quote. -/
def stringTail : Reader String := fun s => mapValue String.ofList (pieces keptPiece s)

/-- Reads a string; the input begins with its opening quote. -/
def string : Reader String := fun s =>
  match s with
  | [] => .error ⟨.endInString, [], 0⟩
  | c :: r =>
    match stringTail r with
    | .error e => .error e
    | .ok (t, r') => .ok (t, (Rest.tail c r).trans r')

/-- Passes a string behind its opening quote. -/
def skippedTail : Reader Unit := fun s => mapValue (fun _ => ()) (pieces skippedPiece s)

/-! ## Numbers -/

/-- The value of a decimal digit among the items. -/
def digitItem? (c : Option Char) : Option Nat := c.bind (Digit.value? 10)

/-- The digits that the input begins with. -/
def digitsOf (s : Input) : List Nat := (s.takeWhile (digitItem? · |>.isSome)).filterMap digitItem?

/-- The input behind the digits that it begins with. -/
def behindDigits (s : Input) : Tail s := ⟨s.dropWhile (digitItem? · |>.isSome), length_dropWhile_le ..⟩

/-- Reads the digits of the whole part: a zero alone, or digits that do not begin with one. -/
def wholePart : Reader (List Nat) := fun s =>
  match s with
  | [] => .error ⟨.endInValue, [], 0⟩
  | c :: r =>
    match digitItem? c with
    | none => .error ⟨.invalidNumber, c :: r, 1⟩
    | some d =>
      if d = 0 ∧ digitsOf r ≠ [] then .error ⟨.invalidNumber, r, 1⟩
      else .ok (d :: digitsOf r, (Rest.tail c r).withBehind (behindDigits r))

/-- Reads the point and the digits behind it, if there is a point. -/
def fractionPart (s : Input) : Except Fault (List Nat × Tail s) :=
  match s with
  | some '.' :: r =>
    match digitsOf r with
    | [] => .error ⟨match r with
        | [] => .endInValue
        | _ => .invalidNumber, r, 1⟩
    | digits => .ok (digits, ⟨(behindDigits r).1, Nat.le_succ_of_le (behindDigits r).2⟩)
  | s => .ok ([], Tail.all s)

/-- The sign of an exponent, and the input behind it. -/
def exponentSign (s : Input) : Bool × Tail s :=
  match s with
  | some '+' :: r => (false, ⟨r, Nat.le_succ _⟩)
  | some '-' :: r => (true, ⟨r, Nat.le_succ _⟩)
  | s => (false, Tail.all s)

/-- Reads the exponent, if there is one. -/
def exponentPart (s : Input) : Except Fault (Option (Bool × List Nat) × Tail s) :=
  match s with
  | c :: r =>
    if c = some 'e' ∨ c = some 'E' then
      let (negative, t) := exponentSign r
      match digitsOf t.1 with
      | [] => .error ⟨match t.1 with
          | [] => .endInValue
          | _ => .invalidNumber, t.1, 1⟩
      | digits =>
        .ok (some (negative, digits),
          ⟨(behindDigits t.1).1,
            Nat.le_succ_of_le (Nat.le_trans (behindDigits t.1).2 t.2)⟩)
    else .ok (none, Tail.all (c :: r))
  | [] => .ok (none, Tail.all [])

/-- Reads a number token behind its sign. -/
def unsignedLiteral (negative : Bool) : Reader Literal := fun s =>
  match wholePart s with
  | .error e => .error e
  | .ok (whole, r) =>
    match fractionPart r.1 with
    | .error e => .error e
    | .ok (fraction, r') =>
      match exponentPart r'.1 with
      | .error e => .error e
      | .ok (exponent, r'') =>
        .ok (⟨negative, whole, fraction, exponent⟩, (r.withBehind r').withBehind r'')

/-- Whether a number token begins with an item. -/
def beginsNumber (c : Option Char) : Bool := c == some '-' || (digitItem? c).isSome

/-- Reads a number token; the input begins with a sign or a digit. -/
def literal : Reader Literal := fun s =>
  match s with
  | [] => .error ⟨.endInValue, [], 0⟩
  | c :: r =>
    if c = some '-' then
      match unsignedLiteral true r with
      | .error e => .error e
      | .ok (l, r') => .ok (l, (Rest.tail c r).trans r')
    else unsignedLiteral false (c :: r)

/-- Reads a number. -/
def number : Reader Number := fun s =>
  match literal s with
  | .error e => .error e
  | .ok (l, r) =>
    match l.toNumber with
    | .ok n => .ok (n, r)
    | .error unread =>
      .error ⟨.numberOutOfRange, (s.take (s.length - r.1.length)).drop
        (s.length - r.1.length - unread) ++ r.1, 0⟩

end SecretClient.Json
