import Mathlib.Algebra.Group.Int.Defs
import SecretClient.Proofs.Json.Member
import SecretClient.Proofs.Json.Number
import SecretClient.Proofs.Text.Utf8

/-!
# The grammar of JSON texts

Which texts there are and which values they denote, said without a reader. A text is put together
from its tokens; `Grammar` leaves open what stands between them, in which order the members of an
object are listed, and which number a token denotes. There are two grammars: `Grammar.json` is RFC 8259
with the limits of this library, and `Grammar.compact` has no gaps and orders the keys of objects, as
everything does that is written.

`Grammar.Denotes d text v` says that the text denotes the value, and that its containers nest at most
`d` deep.
-/

namespace SecretClient.Json

/-! ## Strings -/

/-- A letter behind a backslash, and the character that it writes. -/
inductive LetterEscape : Char → Char → Prop
  | quote : LetterEscape '"' '"'
  | backslash : LetterEscape '\\' '\\'
  | slash : LetterEscape '/' '/'
  | backspace : LetterEscape 'b' '\x08'
  | formFeed : LetterEscape 'f' '\x0C'
  | lineFeed : LetterEscape 'n' '\n'
  | carriageReturn : LetterEscape 'r' '\r'
  | tab : LetterEscape 't' '\t'

/-- A hexadecimal digit, in either case, and its value. -/
def HexDigit (c : Char) (n : Nat) : Prop :=
  n < 16 ∧ (c = Nat.digitChar n ∨ c = (Nat.digitChar n).toUpper)

/-- Four hexadecimal digits and their number. -/
inductive FourHex : List Char → Nat → Prop
  | intro {a b c d : Char} {i j k l : Nat} : HexDigit a i → HexDigit b j → HexDigit c k →
      HexDigit d l → FourHex [a, b, c, d] (((i * 16 + j) * 16 + k) * 16 + l)

/-- The spellings of a character in a string. -/
inductive CharText : List Char → Char → Prop
  /-- The character itself, if it is no control, no quote and no backslash. -/
  | plain {c : Char} : 0x20 ≤ c.toNat → c ≠ '"' → c ≠ '\\' → CharText [c] c
  | letter {l c : Char} : LetterEscape l c → CharText ['\\', l] c
  /-- Its number, if that is no half of a pair. -/
  | number {digits : List Char} {n : Nat} : FourHex digits n → n < 0xD800 ∨ 0xDFFF < n →
      CharText ('\\' :: 'u' :: digits) (Char.ofNat n)
  /-- The two halves of a pair. -/
  | pair {digits digits' : List Char} {high low : Nat} : FourHex digits high →
      0xD800 ≤ high → high ≤ 0xDBFF → FourHex digits' low → 0xDC00 ≤ low → low ≤ 0xDFFF →
      CharText ('\\' :: 'u' :: (digits ++ '\\' :: 'u' :: digits'))
        (Char.ofNat (0x10000 + (high - 0xD800) * 0x400 + (low - 0xDC00)))

/-- The spellings of the characters of a string, one behind the other. -/
inductive CharsText : List Char → List Char → Prop
  | nil : CharsText [] []
  | cons {text rest : List Char} {c : Char} {cs : List Char} : CharText text c →
      CharsText rest cs → CharsText (text ++ rest) (c :: cs)

/-- The texts of a string. -/
inductive StringText : List Char → String → Prop
  | intro {text : List Char} {s : String} : CharsText text s.toList →
      StringText ('"' :: text ++ ['"']) s

/-! ## Numbers -/

/-- The texts of an exponent. -/
inductive ExponentText : Option (Bool × List Nat) → List Char → Prop
  | none : ExponentText none []
  | unsigned {ds : List Nat} {e : Char} : e ∈ ['e', 'E'] →
      ExponentText (some (false, ds)) (e :: digitChars ds)
  | plus {ds : List Nat} {e : Char} : e ∈ ['e', 'E'] →
      ExponentText (some (false, ds)) (e :: '+' :: digitChars ds)
  | minus {ds : List Nat} {e : Char} : e ∈ ['e', 'E'] →
      ExponentText (some (true, ds)) (e :: '-' :: digitChars ds)

/-- The texts of a literal: a sign, the whole part without a zero in front of other digits, and
perhaps a fraction and an exponent. -/
inductive NumberText (l : Literal) : List Char → Prop
  | intro {exponent : List Char} : l.WellFormed → ExponentText l.exponent exponent →
      NumberText l ((if l.negative then ['-'] else []) ++
        (digitChars l.whole ++ (Literal.fractionChars l.fraction ++ exponent)))

/-- The number that a literal denotes, where the conversion of literals that are no integer between
-2⁶³ and 2⁶⁴-1 is given. A negative zero keeps its sign, which no integer has. -/
inductive Literal.Denotes (convert : Literal → Option Float) (l : Literal) : Number → Prop
  | integer : l.fraction = [] → l.exponent = none → ¬ (l.negative ∧ l.whole = [0]) →
      -2 ^ 63 ≤ l.toInt → l.toInt < 2 ^ 64 → Denotes convert l (.integer l.toInt)
  | negativeZero : l = ⟨true, [0], [], none⟩ → Denotes convert l (.float (-0.0))
  | float {x : Float} :
      l.fraction ≠ [] ∨ l.exponent ≠ none ∨ l.toInt < -2 ^ 63 ∨ 2 ^ 64 ≤ l.toInt →
      convert l = some x → Denotes convert l (.float x)

/-! ## Values -/

/-- What is left open by the texts of the tokens. -/
structure Grammar where
  /-- What may stand between two tokens. -/
  gap : List Char → Prop
  /-- In which order the members of an object may be listed, by their keys. -/
  keys : List String → Prop
  /-- Which number a literal denotes. -/
  number : Literal → Number → Prop

/-- The members that an object has, by those that its text lists: each key once, with the value that
is listed last. -/
structure Latest {α : Type} (listed members : List (String × α)) : Prop where
  keysOrdered : KeysOrdered members
  lookup (key : String) : members.lookup key = listed.reverse.lookup key

namespace Grammar

section

variable (g : Grammar) {α : Type}

/-- An item with gaps around it. -/
inductive Padded (item : List Char → α → Prop) : List Char → α → Prop
  | intro {before text after : List Char} {a : α} : g.gap before → item text a → g.gap after →
      Padded item (before ++ text ++ after) a

/-- Items with a comma between each two of them. -/
inductive Separated (item : List Char → α → Prop) : List Char → List α → Prop
  | last {text : List Char} {a : α} : item text a → Separated item text [a]
  | more {text rest : List Char} {a : α} {as : List α} : item text a → Separated item rest as →
      Separated item (text ++ ',' :: rest) (a :: as)

/-- What stands between the brackets of a container. -/
inductive Listed (item : List Char → α → Prop) : List Char → List α → Prop
  | empty {text : List Char} : g.gap text → Listed item text []
  | items {text : List Char} {as : List α} : Separated (g.Padded item) text as →
      Listed item text as

/-- A member of an object: its key, a colon and its value. -/
inductive Member (value : List Char → α → Prop) : List Char → String × α → Prop
  | intro {key behind before text : List Char} {k : String} {a : α} : StringText key k →
      g.gap behind → g.gap before → value text a →
      Member value (key ++ behind ++ ':' :: (before ++ text)) (k, a)

/-- The texts of values that are no containers. -/
inductive Scalar : List Char → Value → Prop
  | null : Scalar "null".toList .null
  | true : Scalar "true".toList (.bool true)
  | false : Scalar "false".toList (.bool false)
  | number {l : Literal} {text : List Char} {n : Number} : NumberText l text → g.number l n →
      Scalar text (.number n)
  | string {text : List Char} {s : String} : StringText text s → Scalar text (.string s)

/-- The texts of containers, by those of the values inside. -/
inductive Container (inside : List Char → Value → Prop) : List Char → Value → Prop
  | array {text : List Char} {vs : List Value} : g.Listed inside text vs →
      Container inside ('[' :: text ++ [']']) (.array vs)
  | object {text : List Char} {listed members : List (String × Value)} :
      g.Listed (g.Member inside) text listed → g.keys (listed.map Prod.fst) →
      Latest listed members → Container inside ('\x7b' :: text ++ ['\x7d']) (.object members)

/-- The text denotes the value, and its containers nest at most so deep. -/
def Denotes : Nat → List Char → Value → Prop
  | 0 => g.Scalar
  | d + 1 => fun text v => g.Scalar text v ∨ g.Container (Denotes d) text v

end

/-- A gap of RFC 8259: spaces, tabs, line feeds and carriage returns. -/
def Blanks (text : List Char) : Prop := ∀ c ∈ text, c ∈ [' ', '\t', '\n', '\r']

/-- The grammar of RFC 8259, given the conversion of literals to floating point numbers. -/
def json (convert : Literal → Option Float) : Grammar where
  gap := Blanks
  keys _ := True
  number := Literal.Denotes convert

/-- The grammar of texts without gaps: nothing stands between the tokens, the keys of an object are in
the order of their bytes, and a literal is written as its number is. -/
def compact : Grammar where
  gap text := text = []
  keys := List.Pairwise fun k k' => Utf8.encode k.toList < Utf8.encode k'.toList
  number l n := l.chars = n.text

/-! ## Small lemmas -/

variable {g : Grammar} {α : Type}

theorem Scalar.denotes {text : List Char} {v : Value} (h : g.Scalar text v) (d : Nat) :
    g.Denotes d text v := by
  cases d with
  | zero => exact h
  | succ d => exact Or.inl h

end Grammar

end SecretClient.Json
