import SecretClient.Http.Peer
import SecretClient.Text.Base64

/-!
# Exchanges

Sending one request and following the redirects that come back. At most ten redirects are followed.
The token goes along with each of them; the authorization that follows from a user name in the
address is left out as soon as the host or the port changes.

## Termination

Following redirects recurses on how many more of them may be followed.
-/

namespace SecretClient.Http

/-- Why there is no reply, or no body. -/
inductive TransportError where
  /-- The request could not be made. -/
  | builder (url : Option String)
  /-- The request was sent, or was to be sent, and no reply came. -/
  | sending (url : String)
  /-- One redirect too many. -/
  | redirect (url : String)
  /-- The body ended too early or was not what it should be. -/
  | body
deriving DecidableEq, Repr

/-- The text of an error. -/
def TransportError.message : TransportError → String
  | builder none => "builder error"
  | builder (some url) => "builder error for url (" ++ url ++ ")"
  | sending url => "error sending request for url (" ++ url ++ ")"
  | redirect url => "error following redirect for url (" ++ url ++ ")"
  | body => "error decoding response body"

/-- A request to be made: its URL is a text that has yet to be read. -/
structure Order where
  method : Method
  url : String
  token : Option String := none
  body : Option String := none
deriving DecidableEq, Repr

/-- Whether a header can hold a text: no controls other than the tab. -/
def headerHolds (text : String) : Bool :=
  text.toList.all fun c => (0x20 ≤ c.toNat && c.toNat ≠ 0x7F) || c == '\t'

/-- The user name and the password that a URL names, if it names one and they are texts. -/
def credentials? (u : Url) : Option (List Char × List Char) := do
  let a ← u.authority
  let username ← Utf8.chars? (Percent.decode a.username)
  let password := if a.password.isEmpty then none else Utf8.chars? (Percent.decode a.password)
  if username.isEmpty && password.isNone then none else some (username, password.getD [])

/-- The header that carries a user name and a password. -/
def basicAuthorization (username password : List Char) : String :=
  "Basic " ++ String.ofList (Base64.encode (Utf8.encode (username ++ ':' :: password)))

/-- The longest text of a URL that a request can name. -/
def maxTargetSize : Nat := 65534

/-- The characters that a URL allows in a host and a request does not. -/
def isUnnamable (c : Char) : Bool := c == '"' || c == '\x60' || c == '\x7b' || c == '\x7d'

/-- Whether a request can name a URL: no character of its host is in the way, and it is not too
long. -/
def canName (u : Url) : Bool :=
  !((u.host?.map Host.text).getD []).any isUnnamable && u.text.utf8ByteSize ≤ maxTargetSize

/-- Makes the request of an order. -/
def Order.request (o : Order) : Except TransportError Request :=
  match Url.parse o.url with
  | .error _ => .error (.builder none)
  | .ok u =>
    if u.host?.isNone then .error (.builder (some u.text))
    else
      let known := credentials? u
      let target := if known.isSome then u.withoutUserinfo else u
      if (o.token.any fun t => !headerHolds t) then .error (.builder none)
      else if !target.isHttp || !canName target then .error (.builder (some target.text))
      else .ok
        { method := o.method, target, token := o.token, body := o.body
          authorization := known.map fun (name, password) => basicAuthorization name password }

/-- How many redirects are followed. -/
def maxRedirects : Nat := 10

/-- Whether a status asks for another request. -/
def isRedirect (status : Nat) : Bool := [301, 302, 303, 307, 308].contains status

/-- Where a reply sends the client, as seen from the URL that was asked. -/
def Reply.target? (r : Reply) (asked : Url) : Option Url :=
  if isRedirect r.status then
    match r.location.map (Url.join asked ·) with
    | some (.ok u) => if canName u then some u else none
    | _ => none
  else none

/-- Whether two URLs have the same host and port. -/
def sameOrigin (a b : Url) : Bool :=
  a.host?.map Host.text == b.host?.map Host.text && a.effectivePort? == b.effectivePort?

/-- The request that follows a redirect. The statuses 307 and 308 repeat the request; the others ask
with GET and without a body. -/
def Request.redirected (r : Request) (status : Nat) (target : Url) : Request :=
  let repeated := status = 307 ∨ status = 308
  { method := if repeated then r.method else .get
    target
    token := r.token
    body := if repeated then r.body else none
    authorization := if sameOrigin r.target target then r.authorization else none }

/-- What came of an order: the requests that the peer saw, in order, and the final reply. -/
structure Exchange where
  requests : List Request
  result : Except TransportError Reply

/-- Sends a request and follows redirects, `left` of them at most. `first` is the URL that a failure
to send names. -/
def sendFrom (first : Url) (left : Nat) (r : Request) (peer : Peer) : Exchange :=
  if peer.sees r.target then
    match peer.next with
    | (.silence, _) => ⟨[r], .error (.sending first.text)⟩
    | (.reply reply, peer) =>
      match reply.target? r.target with
      | none => ⟨[r], .ok reply⟩
      | some target =>
        match left with
        | 0 => ⟨[r], .error (.redirect r.target.text)⟩
        | left + 1 =>
          if target.isHttp then
            let rest := sendFrom first left (r.redirected reply.status target) peer
            ⟨r :: rest.requests, rest.result⟩
          else ⟨[r], .error (.builder (some target.text))⟩
  else ⟨[], .error (.sending first.text)⟩
termination_by left

/-- Carries an order out. -/
def Order.send (o : Order) (peer : Peer) : Exchange :=
  match o.request with
  | .error e => ⟨[], .error e⟩
  | .ok r => sendFrom r.target maxRedirects r peer

end SecretClient.Http
