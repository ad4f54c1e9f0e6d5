import SecretClient.Json.Token
import SecretClient.Json.Value

/-!
# Reading values

`valueReader d` reads a value in which containers nest at most `d` deep. `skipReader d` passes such a
value without keeping it, and is content with less: a number may be out of range and a string may
hold bytes that are no text. A text opens each nested container with a character of its own, so with
the length of the text for `d` nothing is too deep.

## Termination

Both readers recurse on the depth that is left; the loops within a level are those of `Json.items`.
-/

namespace SecretClient.Json

/-- The depth to which the containers of a text may nest. -/
def maxDepth : Nat := 127

/-- Reads behind the first item of the input. -/
def afterFirst {α : Type} (reader : Reader α) : Reader α := fun s =>
  match s with
  | [] => .error ⟨.endInValue, [], 0⟩
  | c :: r =>
    match reader r with
    | .error e => .error e
    | .ok (a, r') => .ok (a, (Rest.tail c r).trans r')

/-- Reads a word of which the first character is known. -/
def wordReader {α : Type} (rest : List Char) (value : α) : Reader α := fun s =>
  match s with
  | [] => .error ⟨.endInValue, [], 0⟩
  | c :: r =>
    match word rest r with
    | .error e => .error e
    | .ok t => .ok (value, (Rest.tail c r).withBehind t)

/-- How the parts of a value are read: what each kind of scalar gives, and what containers do with
the readers of their parts. -/
structure Parts (α : Type) where
  null : α
  bool : Bool → α
  number : Reader α
  string : Reader α
  /-- Reads behind an opening bracket. -/
  array : Reader α
  /-- Reads behind an opening brace. -/
  object : Reader α

/-- Reads a value by its parts. -/
def Parts.reader {α : Type} (parts : Parts α) : Reader α := Reader.padded fun s =>
  match s with
  | [] => .error ⟨.endInValue, [], 0⟩
  | c :: r =>
    if c = some 'n' then wordReader "ull".toList parts.null (c :: r)
    else if c = some 't' then wordReader "rue".toList (parts.bool true) (c :: r)
    else if c = some 'f' then wordReader "alse".toList (parts.bool false) (c :: r)
    else if c = some '"' then afterFirst parts.string (c :: r)
    else if c = some '[' then afterFirst parts.array (c :: r)
    else if c = some '\x7b' then afterFirst parts.object (c :: r)
    else if beginsNumber c then parts.number (c :: r)
    else .error ⟨.expectedValue, c :: r, 1⟩

/-- The failure of a container that nests too deep: its place is that of its bracket. -/
def tooDeep {α : Type} (bracket : Char) : Reader α := fun s =>
  .error ⟨.tooDeep, some bracket :: s, 1⟩

/-- The parts of a value that is kept, given the readers of what stands behind an opening bracket and
behind an opening brace. -/
def valueParts (array object : Reader Value) : Parts Value :=
  { null := .null
    bool := .bool
    number := fun s => mapValue .number (number s)
    string := fun s => mapValue .string (stringTail s)
    array, object }

/-- Reads a value in which containers nest at most so deep. -/
def valueReader : Nat → Reader Value
  | 0 => (valueParts (tooDeep '[') (tooDeep '\x7b')).reader
  | d + 1 => (valueParts
      (fun s => mapValue .array (items nextElement (valueReader d) true s))
      (fun s => mapValue (fun ms => .object (collectMembers ms))
        (items nextKey (member string fun _ => valueReader d) true s))).reader

/-- The parts of a value that is skipped. -/
def skipParts (array object : Reader Unit) : Parts Unit :=
  { null := ()
    bool := fun _ => ()
    number := fun s => mapValue (fun _ => ()) (literal s)
    string := skippedTail
    array, object }

/-- Passes a value in which containers nest at most so deep. -/
def skipReader : Nat → Reader Unit
  | 0 => (skipParts (tooDeep '[') (tooDeep '\x7b')).reader
  | d + 1 => (skipParts
      (fun s => mapValue (fun _ => ()) (items nextElement (skipReader d) true s))
      (fun s => mapValue (fun _ => ())
        (items nextKey (member (afterFirst skippedTail) fun _ => skipReader d) true s))).reader

/-- Passes a value, however deep its containers nest. -/
def skipValue : Reader Unit := fun s => skipReader s.length s

/-- Reads a text as a value. -/
def parse (text : String) : Except Error Value :=
  (whole (valueReader maxDepth) (.ofChars text.toList)).mapError (·.locate text.toList)

end SecretClient.Json
