import SecretClient.Url.Host
import SecretClient.Url.Segment

/-!
# URLs

A URL in its parts, each already in its written form: percent-encoding, letter case and dot segments
are settled when a URL is read, so `Url.text` only puts the parts together.
-/

namespace SecretClient

/-- Who is asked, and as whom. The port is the scheme's own if none is given. -/
structure Authority where
  username : List Char := []
  password : List Char := []
  host : Host
  port : Option Nat := none

/-- The path of a URL. -/
inductive UrlPath where
  /-- A text without segments, as behind `mailto:`. -/
  | opaqueText (text : List Char)
  /-- Segments with a slash in front of each. -/
  | rooted (segments : List (List Char))

/-- A URL. -/
structure Url where
  scheme : String
  authority : Option Authority := none
  /-- Whether the path is written behind `/.`, which keeps two slashes at its beginning from being
  read as those of an authority. -/
  guarded : Bool := false
  path : UrlPath
  query : Option (List Char) := none
  fragment : Option (List Char) := none

namespace Url

/-- The port that a scheme is served on, for the schemes that have one. -/
def knownPort? (scheme : String) : Option Nat :=
  match scheme with
  | "http" | "ws" => some 80
  | "https" | "wss" => some 443
  | "ftp" => some 21
  | _ => none

/-- What a scheme means for the shape of its URLs. -/
def kindOf (scheme : String) : SchemeKind :=
  if scheme = "file" then .file else if (knownPort? scheme).isSome then .special else .plain

/-- What the scheme of a URL means for its shape. -/
def kind (u : Url) : SchemeKind := kindOf u.scheme

/-- Whether requests can be sent to the URL. -/
def isHttp (u : Url) : Bool := u.scheme == "http" || u.scheme == "https"

/-- The written form of a user name and a password. -/
def userinfoText (a : Authority) : List Char :=
  if a.username.isEmpty && a.password.isEmpty then []
  else a.username ++ (if a.password.isEmpty then [] else ':' :: a.password) ++ ['@']

/-- The written form of a port. -/
def portText (port : Option Nat) : List Char :=
  match port with
  | some p => ':' :: Digit.text 10 p
  | none => []

/-- The written form of an authority. -/
def authorityText : Option Authority → List Char
  | some a => ['/', '/'] ++ userinfoText a ++ a.host.text ++ portText a.port
  | none => []

/-- The written form of a path. -/
def pathText : UrlPath → List Char
  | .opaqueText t => t
  | .rooted segments => Segment.text segments

/-- The written form of a query or a fragment behind its mark. -/
def markedText (mark : Char) : Option (List Char) → List Char
  | some t => mark :: t
  | none => []

/-- The written form of a URL, as characters. -/
def chars (u : Url) : List Char :=
  u.scheme.toList ++ ':' :: (authorityText u.authority ++
    ((if u.guarded then ['/', '.'] else []) ++ (pathText u.path ++
      (markedText '?' u.query ++ markedText '#' u.fragment))))

/-- The written form of a URL. -/
def text (u : Url) : String := String.ofList u.chars

/-- The host, if one is written. -/
def host? (u : Url) : Option Host :=
  match u.authority with
  | some a => if a.host.isEmpty then none else some a.host
  | none => none

/-- The port that requests go to. -/
def effectivePort? (u : Url) : Option Nat :=
  (u.authority.bind (·.port)).or (knownPort? u.scheme)

/-- The segments of the path, if it has any. -/
def segments (u : Url) : List (List Char) :=
  match u.path with
  | .opaqueText _ => []
  | .rooted s => s

/-- The URL without what stands behind `#`. -/
def withoutFragment (u : Url) : Url := { u with fragment := none }

/-- The URL without user name and password. -/
def withoutUserinfo (u : Url) : Url :=
  { u with authority := u.authority.map ({ · with username := [], password := [] }) }

/-- Leaves out tabs and line ends, which a URL never holds. -/
def stripped (text : List Char) : List Char :=
  text.filter fun c => c ≠ '\t' ∧ c ≠ '\n' ∧ c ≠ '\r'

/-- The segments that a text writes behind the root. -/
def rootedAt (kind : SchemeKind) : List Char → List (List Char)
  | c :: rest => if kind.separates c then Segment.read kind [] rest else Segment.read kind [] (c :: rest)
  | [] => Segment.read kind [] []

/-- The URL with another path. Query and fragment stay, and `?` and `#` in the path are encoded; a
slash at the beginning of an opaque path is encoded too. -/
def withPath (u : Url) (path : String) : Url :=
  match u.path with
  | .opaqueText _ =>
    { u with path := .opaqueText (match stripped path.toList with
        | '/' :: rest => ['%', '2', 'F'] ++ Percent.encode EncodeSet.control rest
        | t => Percent.encode EncodeSet.control t) }
  | .rooted _ => { u with path := .rooted (rootedAt u.kind (stripped path.toList)) }

end Url

end SecretClient
