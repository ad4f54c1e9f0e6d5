import SecretClient.Json.Document

/-!
# Values of a known shape

Readers that take a value only if it has the shape asked for: a text, a natural number, a list, a map
of texts, or a record with given fields. A value of any other shape is refused at its place, without
reading on.

A record may be written as an object, of which other members are skipped, or as a list of its fields
in order.
-/

namespace SecretClient.Json

/-- What a number is called when it is refused. -/
def Number.found : Number → Found
  | .integer n => .integer n
  | .float x => .float (Number.text (.float x))

/-- The parts of a value that is refused: scalars are read to be named. -/
def foundParts : Parts Found :=
  { null := .null
    bool := .boolean
    number := fun s => mapValue Number.found (number s)
    string := fun s => mapValue (fun t => .string t.toList) (stringTail s)
    array := tooDeep '['
    object := tooDeep '\x7b' }

/-- The failure of a value that has not the shape asked for. A container is refused in front of its
bracket and a scalar behind its last character. -/
def mismatch (wanted : Wanted) (s : Input) : Fault :=
  match s with
  | some '[' :: _ => ⟨.wrongType .sequence wanted, s, 0⟩
  | some '\x7b' :: _ => ⟨.wrongType .map wanted, s, 0⟩
  | s =>
    match foundParts.reader s with
    | .ok (found, r) => ⟨.wrongType found wanted, r.1, 0⟩
    | .error e => e

/-- Reads a value that begins with the given character. -/
def beginning {α : Type} (wanted : Wanted) (first : Char) (behind : Reader α) : Reader α :=
  Reader.padded fun s =>
    match s with
    | [] => .error ⟨.endInValue, [], 0⟩
    | c :: r =>
      if c = some first then afterFirst behind (c :: r) else .error (mismatch wanted (c :: r))

/-- Reads a text. -/
def textReader : Reader String := beginning .string '"' stringTail

/-- Reads a natural number of 64 bits. -/
def naturalReader : Reader Nat := Reader.padded fun s =>
  match s with
  | [] => .error ⟨.endInValue, [], 0⟩
  | c :: r =>
    if beginsNumber c then
      match number (c :: r) with
      | .error e => .error e
      | .ok (.integer n, r') =>
        if 0 ≤ n then .ok (n.toNat, r') else .error ⟨.wrongValue (.integer n) .natural, r'.1, 0⟩
      | .ok (n, r') => .error ⟨.wrongType n.found .natural, r'.1, 0⟩
    else .error (mismatch .natural (c :: r))

/-- Reads a list. -/
def listReader {α : Type} (element : Reader α) : Reader (List α) :=
  beginning .sequence '[' (items nextElement element true)

/-- Reads an object as a map, given the reader of its values. -/
def mapReader {α : Type} (value : Reader α) : Reader (List (String × α)) :=
  beginning .map '\x7b' fun s =>
    mapValue collectMembers (items nextKey (member string fun _ => value) true s)

/-- Reads an object. -/
def objectReader : Reader (List (String × Value)) := mapReader (valueReader (maxDepth - 1))

/-! ## Records -/

/-- A record: its name and its fields in order. -/
structure RecordType where
  name : String
  fields : List String

/-- What a reader of the record asks for. -/
def RecordType.wanted (type : RecordType) : Wanted := .record type.name type.fields.length

/-- Reads the fields that are still wanted from the elements of a list, behind `done` others. -/
def fieldElements {α : Type} (type : RecordType) (field : Reader α) (done : Nat) :
    List String → (s : Input) → Except Fault (List α × Rest s)
  | [], s =>
    match listEnd s with
    | .ok r => .ok ([], r)
    | .error e => .error e
  | _ :: names, s =>
    match nextElement (done == 0) s with
    | .error e => .error e
    | .ok (.closed r) => .error ⟨.tooShort done type.wanted, r.1, 0⟩
    | .ok (.begins t) =>
      match field t.1 with
      | .error e => .error e
      | .ok (a, r) =>
        match fieldElements type field (done + 1) names r.1 with
        | .error e => .error e
        | .ok (as, r') => .ok (a :: as, (r.trans r').within t)

/-- The values of a member in the order in which they were listed. -/
def listedValues {α : Type} (name : String) (listed : List (String × Option α)) : List α :=
  listed.filterMap fun (k, v) => if k = name then v else none

/-- The fields of a record from the members that its object lists. -/
def fieldsOf {α : Type} (listed : List (String × Option α)) : List String → Except Cause (List α)
  | [] => .ok []
  | name :: names =>
    match listedValues name listed with
    | [] => .error (.missingField name)
    | [a] => (fieldsOf listed names).map (a :: ·)
    | _ => .error (.repeatedField name)

/-- Reads the member of an object, and its value if it is one of the record's fields. -/
def fieldMember {α : Type} (type : RecordType) (field : Reader α) :
    Reader (String × Option α) :=
  member string fun key =>
    if key ∈ type.fields then fun s => mapValue some (field s)
    else fun s => mapValue (fun _ => none) (skipValue s)

/-- Reads the fields of a record behind an opening brace. -/
def fieldMembers {α : Type} (type : RecordType) (field : Reader α) : Reader (List α) := fun s =>
  match items nextKey (fieldMember type field) true s with
  | .error e => .error e
  | .ok (listed, r) =>
    match fieldsOf listed type.fields with
    | .ok as => .ok (as, r)
    | .error cause => .error ⟨cause, r.1, 0⟩

/-- Reads a record all of whose fields have one reader. -/
def recordReader {α : Type} (type : RecordType) (field : Reader α) : Reader (List α) :=
  Reader.padded fun s =>
    match s with
    | [] => .error ⟨.endInValue, [], 0⟩
    | c :: r =>
      if c = some '[' then afterFirst (fieldElements type field 0 type.fields) (c :: r)
      else if c = some '\x7b' then afterFirst (fieldMembers type field) (c :: r)
      else .error (mismatch type.wanted (c :: r))

/-- Reads a record with one field as that field. -/
def fieldReader {α : Type} (type : RecordType) (field : Reader α) : Reader α := fun s =>
  match recordReader type field s with
  | .ok ([a], r) => .ok (a, r)
  | .ok (_, r) => .error ⟨.tooShort 0 type.wanted, r.1, 0⟩
  | .error e => .error e

/-- Reads a whole text as a value of a known shape. -/
def decode {α : Type} (reader : Reader α) (text : String) : Except Error α :=
  (whole reader (.ofChars text.toList)).mapError (·.locate text.toList)

end SecretClient.Json
