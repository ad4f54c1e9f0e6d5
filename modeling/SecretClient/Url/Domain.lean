import SecretClient.Unicode.Direction
import SecretClient.Unicode.Joining
import SecretClient.Unicode.Mapping
import SecretClient.Unicode.Mark
import SecretClient.Unicode.Normal
import SecretClient.Url.Punycode

/-!
# Domain names

The ASCII form of a domain name, by the rules for internationalised names (UTS #46, without the
transitional mapping): characters are mapped, the text is normalised, and each label between dots is
kept if it is ASCII and encoded if it is not. A label that begins with `xn--` must be the encoding
of a valid label.

A label is held with both its spellings, because the rules about joiners and writing direction speak
of the characters it stands for.
-/

namespace SecretClient.Domain

open Unicode

/-- A label as it is written in ASCII, and the characters that it stands for. -/
structure Label where
  ascii : List Char
  chars : List Char
deriving DecidableEq, Repr

/-- Whether a character is one of the ASCII characters. -/
def isAscii (c : Char) : Bool := c.toNat < 0x80

/-- The ASCII characters that no host holds: controls, the space, and the delimiters of a URL. -/
def isDenied (c : Char) : Bool :=
  c.toNat ≤ 0x20 || c.toNat == 0x7F ||
  ['%', '#', '/', ':', '<', '>', '?', '@', '[', '\\', ']', '^', '|'].contains c

/-- Maps each character of a name; `none` if one is not allowed. -/
def mapped? (name : List Char) : Option (List Char) :=
  (name.mapM fun c => match mapping c with
    | .kept => some [c]
    | .replaced ns => some (ns.map Char.ofNat)
    | .disallowed => none).map List.flatten

/-- Whether a character may stand in a label as it is. -/
def isKept (c : Char) : Bool := mapping c == .kept && !isDenied c

/-- Whether invisible joiners stand only where they change the form of their neighbours: behind a
virama, or, for the non-joiner, between characters that would join. `before` holds the characters
before the place, last one first. -/
def joinersFit (before : List Char) : List Char → Bool
  | [] => true
  | c :: rest =>
    let afterVirama := match before with
      | v :: _ => combiningClass v.toNat == 9
      | [] => false
    let joinsBefore := match before.find? (joining · ≠ .transparent) with
      | some l => joining l == .left || joining l == .dual
      | none => false
    let joinsAfter := match rest.find? (joining · ≠ .transparent) with
      | some r => joining r == .right || joining r == .dual
      | none => false
    let fits :=
      if c.toNat == 0x200C then afterVirama || (joinsBefore && joinsAfter)
      else if c.toNat == 0x200D then afterVirama
      else true
    fits && joinersFit (c :: before) rest

/-- Whether a label may stand with these characters. -/
def isValid (label : List Char) : Bool :=
  label.all isKept && !(label.head?.any isMark) && joinersFit [] label && normalForm label == label

/-- Whether a character makes a name one that also runs from right to left. -/
def turns (c : Char) : Bool :=
  direction c == .rightToLeft || direction c == .arabicNumber

/-- Whether the directions in a label fit together, in a name that also runs from right to left. -/
def directionsFit (label : List Char) : Bool :=
  let all := label.map direction
  let last := (all.reverse.dropWhile (· == .mark)).head?
  match all.head? with
  | none => true
  | some .leftToRight =>
    all.all (fun d => [.leftToRight, .europeanNumber, .separator, .terminator, .neutral, .boundary,
      .mark].contains d) &&
    (last == some .leftToRight || last == some .europeanNumber)
  | some .rightToLeft =>
    all.all (fun d => [.rightToLeft, .arabicNumber, .europeanNumber, .separator, .terminator,
      .neutral, .boundary, .mark].contains d) &&
    (last == some .rightToLeft || last == some .europeanNumber || last == some .arabicNumber) &&
    !(all.contains .europeanNumber && all.contains .arabicNumber)
  | some _ => false

/-- Whether a label is marked as the encoding of another one. -/
def isEncoded (label : List Char) : Bool := label.take 4 == ['x', 'n', '-', '-']

/-- Whether a text is worth encoding: a valid label with characters outside ASCII. -/
def isWide (label : List Char) : Bool := !label.all isAscii && isValid label

/-- Reads a label of a mapped name. Encodings of more than two thousand characters are not read and
labels of more than a thousand are not encoded. -/
def label? (label : List Char) : Option Label :=
  if isEncoded label then
    if 2004 < label.length then none
    else (Punycode.decode? (label.drop 4)).bind fun chars =>
      if label.all isAscii && isWide chars then some ⟨label, chars⟩ else none
  else if label.all isAscii then
    if label.any isDenied then none else some ⟨label, label⟩
  else if isWide label && label.length ≤ 1000 then
    some ⟨['x', 'n', '-', '-'] ++ Punycode.encode label, label⟩
  else none

/-- The labels of a name. -/
def labels? (name : List Char) : Option (List Label) := do
  let mapped ← mapped? name
  let text := if mapped.all isAscii then mapped else normalForm mapped
  let labels ← (text.splitOn '.').mapM label?
  if labels.any (·.chars.any turns) && !labels.all (directionsFit ·.chars) then none else some labels

/-- The ASCII form of a name. -/
def ascii? (name : List Char) : Option (List Char) :=
  (labels? name).map fun labels => ['.'].intercalate (labels.map Label.ascii)

end SecretClient.Domain
