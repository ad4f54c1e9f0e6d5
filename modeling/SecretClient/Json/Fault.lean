import SecretClient.Text.Blank
import SecretClient.Text.Quoted
import SecretClient.Text.Utf8

/-!
# Where and why reading fails

A reader works on a list of items: characters, and `none` for bytes that write no character. When
it fails it names a cause and what was still unread; the line and the column of that place follow
from the whole text.
-/

namespace SecretClient.Json

/-- What a reader reads. -/
abbrev Input := List (Option Char)

/-- The items of a text. -/
def Input.ofChars (text : List Char) : Input := text.map some

/-- What was found where a value of another shape is needed. -/
inductive Found where
  | null
  | boolean (b : Bool)
  | integer (n : Int)
  | float (text : List Char)
  | string (text : List Char)
  | sequence
  | map
deriving DecidableEq, Repr

/-- How a message names what was found. -/
def Found.description : Found → List Char
  | null => "null".toList
  | boolean b => "boolean \x60".toList ++ (toString b).toList ++ ['\x60']
  | integer n => "integer \x60".toList ++ (toString n).toList ++ ['\x60']
  | float t => "floating point \x60".toList ++ t ++ ['\x60']
  | string t => "string ".toList ++ Quoted.encode t
  | sequence => "sequence".toList
  | map => "map".toList

/-- What a reader is asked for. -/
inductive Wanted where
  | string
  | map
  | sequence
  | natural
  /-- An object with the given number of fields. -/
  | record (name : String) (size : Nat)
deriving DecidableEq, Repr

/-- How a message names what was asked for. -/
def Wanted.description : Wanted → String
  | string => "a string"
  | map => "a map"
  | sequence => "a sequence"
  | natural => "u64"
  | record name _ => "struct " ++ name

/-- Why reading fails. -/
inductive Cause where
  | endInList
  | endInObject
  | endInString
  | endInValue
  | expectedColon
  | expectedListCommaOrEnd
  | expectedObjectCommaOrEnd
  | expectedWord
  | expectedValue
  | invalidEscape
  | invalidNumber
  | numberOutOfRange
  | invalidCharacter
  | controlCharacter
  | keyNotString
  | loneSurrogate
  | trailingComma
  | trailingCharacters
  | endOfEscape
  | tooDeep
  /-- A value of another shape than asked for. -/
  | wrongType (found : Found) (wanted : Wanted)
  /-- A value of the right shape that is out of bounds. -/
  | wrongValue (found : Found) (wanted : Wanted)
  /-- A list with too few elements for a record. -/
  | tooShort (length : Nat) (wanted : Wanted)
  | missingField (name : String)
  | repeatedField (name : String)
deriving DecidableEq, Repr

/-- The number of elements that a record needs, as a message writes it. -/
def elementCount (n : Nat) : String :=
  if n = 1 then "1 element" else toString n ++ " elements"

/-- The text of a cause. -/
def Cause.message : Cause → String
  | endInList => "EOF while parsing a list"
  | endInObject => "EOF while parsing an object"
  | endInString => "EOF while parsing a string"
  | endInValue => "EOF while parsing a value"
  | expectedColon => "expected \x60:\x60"
  | expectedListCommaOrEnd => "expected \x60,\x60 or \x60]\x60"
  | expectedObjectCommaOrEnd => "expected \x60,\x60 or \x60\x7d\x60"
  | expectedWord => "expected ident"
  | expectedValue => "expected value"
  | invalidEscape => "invalid escape"
  | invalidNumber => "invalid number"
  | numberOutOfRange => "number out of range"
  | invalidCharacter => "invalid unicode code point"
  | controlCharacter => "control character (\\u0000-\\u001F) found while parsing a string"
  | keyNotString => "key must be a string"
  | loneSurrogate => "lone leading surrogate in hex escape"
  | trailingComma => "trailing comma"
  | trailingCharacters => "trailing characters"
  | endOfEscape => "unexpected end of hex escape"
  | tooDeep => "recursion limit exceeded"
  | wrongType found wanted =>
    "invalid type: " ++ String.ofList found.description ++ ", expected " ++ wanted.description
  | wrongValue found wanted =>
    "invalid value: " ++ String.ofList found.description ++ ", expected " ++ wanted.description
  | tooShort length wanted =>
    "invalid length " ++ toString length ++ ", expected " ++ wanted.description ++
      match wanted with
      | .record _ size => " with " ++ elementCount size
      | _ => ""
  | missingField name => "missing field \x60" ++ name ++ "\x60"
  | repeatedField name => "duplicate field \x60" ++ name ++ "\x60"

/-- A failure: why, what was unread, and how many of its bytes the place lies behind its start. -/
structure Fault where
  cause : Cause
  rest : Input
  past : Nat := 0
deriving Repr

/-- The number of bytes that an item was written with. -/
def itemSize : Option Char → Nat
  | some c => c.utf8Size
  | none => 1

/-- The number of bytes that items were written with. -/
def inputSize (s : Input) : Nat := (s.map itemSize).foldr (· + ·) 0

/-- A failure in a text, with its place. -/
structure Error where
  cause : Cause
  line : Nat
  column : Nat
deriving DecidableEq, Repr

/-- The text of an error. -/
def Error.message (e : Error) : String :=
  e.cause.message ++ " at line " ++ toString e.line ++ " column " ++ toString e.column

/-- The place of a failure: the lines that ended before it, and the bytes since the last line end.
No place lies behind the end of the text. -/
def Fault.locate (text : List Char) (f : Fault) : Error :=
  let bytes := Utf8.encode text
  let before := bytes.take (bytes.length - inputSize f.rest + f.past)
  { cause := f.cause
    line := 1 + before.count 10
    column := (before.reverse.takeWhile (· ≠ 10)).length }

end SecretClient.Json
