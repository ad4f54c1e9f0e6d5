import SecretClient.Json.Fault

/-!
# Readers

A reader takes what it reads from the front of its input and leaves the rest, which is shorter. The
loops over characters, elements and members are written once, for any reader of the single piece, so
the typed readers, the reader of values and the one that skips values take them in the same way.

## Termination

Each round of a loop leaves a shorter rest, by the type of readers.
-/

namespace SecretClient.Json

/-- What a reader leaves of its input. -/
abbrev Rest (s : Input) := { r : Input // r.length < s.length }

/-- What is left of an input when blanks are passed. -/
abbrev Tail (s : Input) := { r : Input // r.length ≤ s.length }

/-- Reads something from the front of the input. -/
abbrev Reader (α : Type) := (s : Input) → Except Fault (α × Rest s)

/-- All of the input. -/
def Tail.all (s : Input) : Tail s := ⟨s, Nat.le_refl _⟩

/-- What is left of a tail is left of the input. -/
def Rest.within {s : Input} (t : Tail s) (r : Rest t.1) : Rest s :=
  ⟨r.1, Nat.lt_of_lt_of_le r.2 t.2⟩

/-- What is left behind a further step. -/
def Rest.trans {s : Input} (r : Rest s) (t : Rest r.1) : Rest s := ⟨t.1, Nat.lt_trans t.2 r.2⟩

/-- What is left behind a step that may take nothing. -/
def Rest.withBehind {s : Input} (r : Rest s) (t : Tail r.1) : Rest s :=
  ⟨t.1, Nat.lt_of_le_of_lt t.2 r.2⟩

/-- The input behind its first item. -/
def Rest.tail (c : Option Char) (s : Input) : Rest (c :: s) := ⟨s, by simp⟩

/-- A blank between tokens: space, tab, line feed or carriage return. -/
def isBlank : Option Char → Bool
  | some c => c == ' ' || c == '\t' || c == '\n' || c == '\r'
  | none => false

theorem length_dropWhile_le {α : Type} (p : α → Bool) (s : List α) :
    (s.dropWhile p).length ≤ s.length :=
  (List.dropWhile_sublist p).length_le

/-- Passes blanks. -/
def skipBlanks (s : Input) : Tail s := ⟨s.dropWhile isBlank, length_dropWhile_le ..⟩

/-- Replaces the value of a result. -/
def mapValue {α β : Type} {s : Input} (f : α → β) :
    Except Fault (α × Rest s) → Except Fault (β × Rest s)
  | .ok (a, r) => .ok (f a, r)
  | .error e => .error e

/-- Reads behind blanks. -/
def Reader.padded {α : Type} (reader : Reader α) : Reader α := fun s =>
  match reader (skipBlanks s).1 with
  | .ok (a, r) => .ok (a, r.within (skipBlanks s))
  | .error e => .error e

/-- Passes the characters of a word. -/
def word : List Char → (s : Input) → Except Fault (Tail s)
  | [], s => .ok (.all s)
  | _ :: _, [] => .error ⟨.endInValue, [], 0⟩
  | w :: ws, c :: s =>
    if c = some w then
      match word ws s with
      | .ok r => .ok ⟨r.1, Nat.le_succ_of_le r.2⟩
      | .error e => .error e
    else .error ⟨.expectedWord, c :: s, 1⟩

/-! ## Characters -/

/-- Reads pieces up to the one that ends the sequence. -/
def pieces {α : Type} (piece : Reader (Option α)) (s : Input) : Except Fault (List α × Rest s) :=
  match piece s with
  | .error e => .error e
  | .ok (none, r) => .ok ([], r)
  | .ok (some a, r) =>
    match pieces piece r.1 with
    | .error e => .error e
    | .ok (as, t) => .ok (a :: as, r.trans t)
termination_by s.length
decreasing_by exact r.2

/-! ## Items of a container -/

/-- What comes next in a list or an object: its end, or something to be read. -/
inductive Next (s : Input) where
  | closed (rest : Rest s)
  | begins (start : Tail s)

/-- Reads the items of a container up to its end. `next` looks for an item behind the opening bracket
(`first`) or behind another item. -/
def items {α : Type} (next : Bool → (s : Input) → Except Fault (Next s)) (item : Reader α)
    (first : Bool) (s : Input) : Except Fault (List α × Rest s) :=
  match next first s with
  | .error e => .error e
  | .ok (.closed r) => .ok ([], r)
  | .ok (.begins t) =>
    match item t.1 with
    | .error e => .error e
    | .ok (a, r) =>
      match items next item false r.1 with
      | .error e => .error e
      | .ok (as, r') => .ok (a :: as, (r.trans r').within t)
termination_by s.length
decreasing_by exact Nat.lt_of_lt_of_le r.2 t.2

/-! ## Elements -/

/-- Looks for the next element of a list behind its opening bracket (`first`) or behind an
element. -/
def nextElement (first : Bool) (s : Input) : Except Fault (Next s) :=
  match skipBlanks s with
  | ⟨[], _⟩ => .error ⟨.endInList, [], 0⟩
  | ⟨c :: r, h⟩ =>
    if c = some ']' then .ok (.closed ⟨r, h⟩)
    else if first then .ok (.begins ⟨c :: r, h⟩)
    else if c = some ',' then
      match skipBlanks r with
      | ⟨[], _⟩ => .error ⟨.endInValue, [], 0⟩
      | ⟨d :: t, h'⟩ =>
        if d = some ']' then .error ⟨.trailingComma, d :: t, 1⟩
        else .ok (.begins ⟨d :: t, Nat.le_trans h' (Nat.le_of_lt h)⟩)
    else .error ⟨.expectedListCommaOrEnd, c :: r, 1⟩

/-- Passes the end of a list of which no further element is wanted. -/
def listEnd (s : Input) : Except Fault (Rest s) :=
  match skipBlanks s with
  | ⟨[], _⟩ => .error ⟨.endInList, [], 0⟩
  | ⟨c :: r, h⟩ =>
    if c = some ']' then .ok ⟨r, h⟩
    else if c = some ',' then
      match skipBlanks r with
      | ⟨d :: t, _⟩ =>
        if d = some ']' then .error ⟨.trailingComma, d :: t, 1⟩
        else .error ⟨.trailingCharacters, d :: t, 1⟩
      | ⟨[], _⟩ => .error ⟨.trailingCharacters, [], 0⟩
    else .error ⟨.trailingCharacters, c :: r, 1⟩

/-! ## Members -/

/-- Looks for the next key of an object behind its opening brace (`first`) or behind a member. What is
to be read begins with the quote of the key. -/
def nextKey (first : Bool) (s : Input) : Except Fault (Next s) :=
  match skipBlanks s with
  | ⟨[], _⟩ => .error ⟨.endInObject, [], 0⟩
  | ⟨c :: r, h⟩ =>
    if c = some '\x7d' then .ok (.closed ⟨r, h⟩)
    else if first then
      if c = some '"' then .ok (.begins ⟨c :: r, h⟩) else .error ⟨.keyNotString, c :: r, 1⟩
    else if c = some ',' then
      match skipBlanks r with
      | ⟨[], _⟩ => .error ⟨.endInValue, [], 0⟩
      | ⟨d :: t, h'⟩ =>
        if d = some '"' then .ok (.begins ⟨d :: t, Nat.le_trans h' (Nat.le_of_lt h)⟩)
        else if d = some '\x7d' then .error ⟨.trailingComma, d :: t, 1⟩
        else .error ⟨.keyNotString, d :: t, 1⟩
    else .error ⟨.expectedObjectCommaOrEnd, c :: r, 1⟩

/-- Passes the colon between a key and its value. -/
def colon (s : Input) : Except Fault (Rest s) :=
  match skipBlanks s with
  | ⟨[], _⟩ => .error ⟨.endInObject, [], 0⟩
  | ⟨c :: r, h⟩ => if c = some ':' then .ok ⟨r, h⟩ else .error ⟨.expectedColon, c :: r, 1⟩

/-- Reads a member: a key, a colon, and a value, whose reader may depend on the key. -/
def member {κ α : Type} (key : Reader κ) (value : κ → Reader α) : Reader (κ × α) := fun s =>
  match key s with
  | .error e => .error e
  | .ok (k, r) =>
    match colon r.1 with
    | .error e => .error e
    | .ok r' =>
      match value k r'.1 with
      | .error e => .error e
      | .ok (a, r'') => .ok ((k, a), (r.trans r').trans r'')

/-! ## Whole texts -/

/-- Reads all of the input; only blanks may be left. -/
def whole {α : Type} (reader : Reader α) (s : Input) : Except Fault α :=
  match reader s with
  | .error e => .error e
  | .ok (a, r) =>
    match (skipBlanks r.1).1 with
    | [] => .ok a
    | rest => .error ⟨.trailingCharacters, rest, 1⟩

end SecretClient.Json
