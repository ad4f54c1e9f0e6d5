import SecretClient.Json.Number

/-!
# Values

A JSON value. The members of an object are kept in the order of their keys, each key once, so that
equal objects are equal values and `Value.text` writes them alike.
-/

namespace SecretClient.Json

/-- A JSON value. -/
inductive Value where
  | null
  | bool (b : Bool)
  | number (n : Number)
  | string (s : String)
  | array (items : List Value)
  | object (members : List (String × Value))
deriving Repr

/-- Puts a member into its place; a member with the same key gives way. -/
def putMember {α : Type} (key : String) (value : α) : List (String × α) → List (String × α)
  | [] => [(key, value)]
  | (k, v) :: rest =>
    if key < k then (key, value) :: (k, v) :: rest
    else if key = k then (key, value) :: rest
    else (k, v) :: putMember key value rest

/-- The members of an object from those that its text lists: the last one with a key counts. -/
def collectMembers {α : Type} (listed : List (String × α)) : List (String × α) :=
  listed.foldl (fun ms (k, v) => putMember k v ms) []

/-! ## Writing -/

/-- How a character is written between quotes. -/
def escapedChar (c : Char) : List Char :=
  match c with
  | '"' => ['\\', '"']
  | '\\' => ['\\', '\\']
  | '\x08' => ['\\', 'b']
  | '\x0C' => ['\\', 'f']
  | '\n' => ['\\', 'n']
  | '\r' => ['\\', 'r']
  | '\t' => ['\\', 't']
  | c =>
    if c.toNat < 0x20 then ['\\', 'u', '0', '0'] ++ [Nat.digitChar (c.toNat / 16),
      Nat.digitChar (c.toNat % 16)]
    else [c]

/-- The text of a string. -/
def stringText (s : String) : List Char := '"' :: s.toList.flatMap escapedChar ++ ['"']

/-- Texts between brackets, with commas between them. -/
def listText (opening closing : Char) (items : List (List Char)) : List Char :=
  opening :: [','].intercalate items ++ [closing]

/-- The text of a member. -/
def memberText (key : String) (value : List Char) : List Char := stringText key ++ ':' :: value

/-- The text of a word. -/
def boolText (b : Bool) : List Char := if b then "true".toList else "false".toList

mutual

/-- The text of a value, without blanks. -/
def Value.chars : Value → List Char
  | .null => "null".toList
  | .bool b => boolText b
  | .number n => n.text
  | .string s => stringText s
  | .array items => listText '[' ']' (Value.itemTexts items)
  | .object members => listText '\x7b' '\x7d' (Value.memberTexts members)

/-- The texts of elements. -/
def Value.itemTexts : List Value → List (List Char)
  | [] => []
  | v :: rest => v.chars :: Value.itemTexts rest

/-- The texts of members. -/
def Value.memberTexts : List (String × Value) → List (List Char)
  | [] => []
  | (k, v) :: rest => memberText k v.chars :: Value.memberTexts rest

end

/-- The text of a value, without blanks. -/
def Value.text (v : Value) : String := String.ofList v.chars

/-- The value of a member. -/
def Value.member? (key : String) : List (String × Value) → Option Value
  | [] => none
  | (k, v) :: rest => if k = key then some v else Value.member? key rest

end SecretClient.Json
