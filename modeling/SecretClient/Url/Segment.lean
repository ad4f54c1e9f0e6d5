import SecretClient.Text.Percent
import SecretClient.Url.EncodeSet

/-!
# Path segments

A path is read as segments between separators. A segment that is one dot is left out and one that
is two dots takes the segment before it away, whatever their spelling: `%2e` is a dot too. All other
segments are kept in order, with the characters of the path set percent-encoded.

In a `file` path the first segment may name a drive, a letter with a colon, and such a segment is
never taken away.
-/

namespace SecretClient

/-- What a scheme means for the shape of its URLs. -/
inductive SchemeKind where
  /-- `file`: a host may be missing, and the path may begin with a drive. -/
  | file
  /-- A scheme with a known port: there is always a host and a path. -/
  | special
  /-- Any other scheme. -/
  | plain
deriving DecidableEq, Repr

/-- Whether a backslash counts as a slash. -/
def SchemeKind.isSpecial : SchemeKind → Bool
  | .plain => false
  | _ => true

/-- Whether a character separates segments. -/
def SchemeKind.separates (kind : SchemeKind) (c : Char) : Bool :=
  c == '/' || (kind.isSpecial && c == '\\')

namespace Segment

/-- How many dots a text of dots writes; `none` for any other text. -/
def dots? : List Char → Option Nat
  | [] => some 0
  | '.' :: rest => (dots? rest).map (· + 1)
  | '%' :: '2' :: e :: rest => if e = 'e' ∨ e = 'E' then (dots? rest).map (· + 1) else none
  | _ => none

/-- Whether a text is a letter and one of the given marks. -/
def isDrive (marks : List Char) : List Char → Bool
  | [letter, mark] => letter.isAlpha && marks.contains mark
  | _ => false

/-- Takes the last segment away, unless it looks like a drive. Segments are held last one first. -/
def pop : List (List Char) → List (List Char)
  | [] => []
  | s :: rest => if isDrive [':', '|'] s then s :: rest else rest

/-- Puts a segment behind the ones before it. The first segment of a `file` path that begins with a
drive is cut behind it. -/
def push (kind : SchemeKind) (done : List (List Char)) (piece : List Char) : List (List Char) :=
  let s := Percent.encode EncodeSet.path piece
  if kind = .file ∧ done = [] then
    if isDrive [':', '|'] s then [s.take 1 ++ [':']]
    else if isDrive [':'] (s.take 2) then [s.drop 2, s.take 2]
    else [s]
  else s :: done

/-- Reads on from the segments `done`, last one first. The last piece has no separator behind it,
so a dot segment there leaves an empty one. -/
def resolve (kind : SchemeKind) (done : List (List Char)) : List (List Char) → List (List Char)
  | [] => done
  | [piece] =>
    match dots? piece with
    | some 1 => [] :: done
    | some 2 => [] :: pop done
    | _ => push kind done piece
  | piece :: rest =>
    match dots? piece with
    | some 1 => resolve kind done rest
    | some 2 => resolve kind (pop done) rest
    | _ => resolve kind (push kind done piece) rest

/-- The segments of a text behind the segments `base`. A `file` path has no empty segments in
front of others. -/
def read (kind : SchemeKind) (base : List (List Char)) (text : List Char) : List (List Char) :=
  let segments := (resolve kind base.reverse (text.splitOnP kind.separates)).reverse
  if kind = .file then
    match segments.dropWhile List.isEmpty with
    | [] => [[]]
    | s :: rest => s :: rest
  else segments

/-- The text of segments, a slash in front of each. -/
def text (segments : List (List Char)) : List Char := segments.flatMap ('/' :: ·)

end Segment

end SecretClient
