import SecretClient.Url.Basic

/-!
# Reading URLs

A text is cut into its parts from the outside in: the scheme up to the first colon, the fragment
behind the first `#`, the query behind the first `?`, the authority behind two slashes, and the path.
A text without a scheme is read against another URL or not at all.
-/

namespace SecretClient.Url

/-- A text without its fragment and query, which are encoded already. -/
structure Tail where
  front : List Char
  query : Option (List Char)
  fragment : Option (List Char)

/-- What stands behind the first occurrence of a mark. -/
def behind (mark : Char) (text : List Char) : Option (List Char) :=
  match text.dropWhile (· ≠ mark) with
  | _ :: rest => some rest
  | [] => none

/-- Cuts query and fragment off. -/
def Tail.of (special : Bool) (text : List Char) : Tail :=
  let front := text.takeWhile (· ≠ '#')
  { front := front.takeWhile (· ≠ '?')
    query := (behind '?' front).map (Percent.encode (EncodeSet.query special))
    fragment := (behind '#' text).map (Percent.encode EncodeSet.fragment) }

/-- The scheme that a text begins with, in lower case, and what stands behind its colon. -/
def scheme? (text : List Char) : Option (String × List Char) :=
  let name := text.takeWhile fun c => c.isAlphanum || c == '+' || c == '-' || c == '.'
  match name, text.drop name.length with
  | first :: _, ':' :: rest =>
    if first.isAlpha then some (String.ofList (name.map Char.toLower), rest) else none
  | _, _ => none

/-- Cuts a text at the first colon that stands outside brackets. -/
def hostSpan (inside : Bool) : List Char → List Char × List Char
  | [] => ([], [])
  | c :: rest =>
    if c = ':' ∧ inside = false then ([], c :: rest)
    else
      let (host, port) := hostSpan (c == '[' || (inside && c != ']')) rest
      (c :: host, port)

/-- Reads a port behind its colon. The second part of the result is what a backslash behind the
digits leaves to the path. -/
def readPort (scheme : String) (text : List Char) : Except ParseError (Option Nat × List Char) :=
  let digits := text.takeWhile Char.isDigit
  let rest := text.drop digits.length
  let port := (Digit.read? 10 digits).getD 0
  if 65535 < port then .error .badPort
  else if rest.isEmpty || rest.head? = some '\\' then
    .ok (if digits.isEmpty || knownPort? scheme = some port then none else some port, rest)
  else .error .badPort

/-- Reads host and port. -/
def readHostPort (scheme : String) (text : List Char) :
    Except ParseError (Host × Option Nat × List Char) := do
  let (hostText, portText) := hostSpan false text
  let special := (kindOf scheme).isSpecial
  if hostText.isEmpty && (special || !portText.isEmpty) then .error .emptyHost
  else
    let host ← if special then Host.read hostText else Host.readOpaque hostText
    match portText with
    | [] => .ok (host, none, [])
    | _ :: digits =>
      let (port, rest) ← readPort scheme digits
      .ok (host, port, rest)

/-- Reads an authority. User name and password stand in front of the last `@`. `followed` says
whether anything stands behind the authority: a text that is an `@` alone may only be the end. The
last part of the result is what is left to the path. -/
def readAuthority (scheme : String) (text : List Char) (followed : Bool) :
    Except ParseError (Authority × List Char) := do
  let hostPort := (text.reverse.takeWhile (· ≠ '@')).reverse
  let userinfo := text.take (text.length - hostPort.length - 1)
  if text.contains '@' && userinfo.isEmpty && hostPort.isEmpty && followed then .error .emptyHost
  else
    let (host, port, rest) ← readHostPort scheme hostPort
    let username := Percent.encode EncodeSet.userinfo (userinfo.takeWhile (· ≠ ':'))
    let password := Percent.encode EncodeSet.userinfo ((behind ':' userinfo).getD [])
    if host.isEmpty && !(username.isEmpty && password.isEmpty) then .error .emptyHost
    else .ok ({ username, password, host, port }, rest)

/-- Reads what stands behind the two slashes of an authority. -/
def afterSlashes (scheme : String) (text : List Char) : Except ParseError Url := do
  let kind := kindOf scheme
  let tail := Tail.of kind.isSpecial text
  let name := tail.front.takeWhile (!kind.separates ·)
  let after := tail.front.drop name.length
  let followed := !after.isEmpty || tail.query.isSome || tail.fragment.isSome
  let (authority, rest) ← readAuthority scheme name followed
  let path := rest ++ after
  .ok
    { scheme, authority, query := tail.query, fragment := tail.fragment
      path := .rooted (if kind.isSpecial || !path.isEmpty then rootedAt kind path else []) }

/-- Reads the host of a `file` URL; `localhost` is no host. -/
def readFileHost (text : List Char) : Except ParseError Host := do
  if text.isEmpty then .ok (.name [])
  else match ← Host.read text with
    | .name t => .ok (.name (if t = "localhost".toList then [] else t))
    | host => .ok host

/-- Reads what stands behind `file:`. A drive may stand in the place of the host, and a path that
begins with a drive has no host. -/
def afterFile (text : List Char) : Except ParseError Url := do
  let tail := Tail.of true text
  let make (host : Host) (segments : List (List Char)) : Url :=
    { scheme := "file", authority := some { host }, path := .rooted segments
      query := tail.query, fragment := tail.fragment }
  let sep := SchemeKind.file.separates
  match tail.front with
  | a :: b :: rest =>
    if sep a && sep b then
      let name := rest.takeWhile (!sep ·)
      if Segment.isDrive [':', '|'] name then .ok (make (.name []) (Segment.read .file [] rest))
      else
        let host ← readFileHost name
        let segments := rootedAt .file (rest.drop name.length)
        let drive := Segment.isDrive [':'] (segments.headD [])
        .ok (make (if drive then .name [] else host) segments)
    else .ok (make (.name []) (rootedAt .file (a :: b :: rest)))
  | front => .ok (make (.name []) (rootedAt .file front))

/-- Reads what stands behind the colon of a scheme without a known port. -/
def afterPlain (scheme : String) (text : List Char) : Except ParseError Url :=
  match text with
  | '/' :: '/' :: rest => afterSlashes scheme rest
  | _ =>
    let tail := Tail.of false text
    match tail.front with
    | '/' :: path =>
      let segments := Segment.read .plain [] path
      .ok { scheme, path := .rooted segments, query := tail.query, fragment := tail.fragment
            guarded := match segments with
              | [] :: _ :: _ => true
              | _ => false }
    | front =>
      .ok { scheme, path := .opaqueText (Percent.encode EncodeSet.control front)
            query := tail.query, fragment := tail.fragment }

/-- Reads what stands behind the colon of a scheme. -/
def afterScheme (scheme : String) (text : List Char) : Except ParseError Url :=
  match kindOf scheme with
  | .file => afterFile text
  | .special => afterSlashes scheme (text.dropWhile SchemeKind.special.separates)
  | .plain => afterPlain scheme text

/-- A text as the reader takes it: without controls and blanks at its ends, and without tabs and
line ends. -/
def prepared (text : List Char) : List Char :=
  let blank (c : Char) : Bool := c.toNat ≤ 0x20
  stripped ((text.dropWhile blank).reverse.dropWhile blank).reverse

/-- Reads a text as a URL. -/
def parse (text : String) : Except ParseError Url :=
  match scheme? (prepared text.toList) with
  | some (scheme, rest) => afterScheme scheme rest
  | none => .error .missingBase

/-- Reads a text without a scheme against a URL. -/
def relative (base : Url) (text : List Char) : Except ParseError Url :=
  let sep := base.kind.separates
  let slashes := text.takeWhile sep
  if 2 ≤ slashes.length then
    afterSlashes base.scheme (text.drop (if slashes.take 2 = ['/', '/'] then 2 else slashes.length))
  else
    let tail := Tail.of base.kind.isSpecial text
    let at_ (segments : List (List Char)) : Url :=
      { base with path := .rooted segments, query := tail.query, fragment := tail.fragment }
    match tail.front with
    | [] => .ok { base with query := tail.query.or base.query, fragment := tail.fragment }
    | c :: rest =>
      .ok (at_ (if sep c then Segment.read base.kind [] rest
        else Segment.read base.kind base.segments.dropLast (c :: rest)))

/-- Reads a text against a URL with a host, as a reference from it. A scheme that is the one of the
URL may stand in front of a reference too. -/
def join (base : Url) (text : String) : Except ParseError Url :=
  let t := prepared text.toList
  match scheme? t with
  | some (scheme, rest) =>
    if scheme = base.scheme ∧ (rest.takeWhile base.kind.separates).length < 2 then
      relative base rest
    else afterScheme scheme rest
  | none => relative base t

end SecretClient.Url
