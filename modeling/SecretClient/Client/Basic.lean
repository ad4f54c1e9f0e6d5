import SecretClient.SecretPath
import SecretClient.Strategy

/-!
# The client

A client knows its address and its strategy, and holds a token from a login until the token is
revoked. Each operation is a function of the client and the peer: it gives what came of it and the
client after it. Only a login and a revocation change the client, and only when they succeed.
-/

namespace SecretClient

/-- A client. -/
structure Client where
  base : Url
  strategy : Strategy
  /-- How long to wait for a reply, in milliseconds. -/
  timeout : Nat := 5000
  /-- The token of the last login; empty if there is none. -/
  token : String := ""
  /-- How many logins there were. -/
  logins : Nat := 0

namespace Client

/-- The URL of a path of the service. -/
def endpoint (c : Client) (path : String) : String := (c.base.withPath path).text

/-! ## Logging in -/

/-- Gets a token and keeps it. -/
def login (c : Client) (peer : Http.Peer) : Attempt Unit × Client :=
  let attempt := c.strategy.token c.logins c.base peer
  let counted := { c with logins := c.logins + 1 }
  match attempt.result with
  | .error e => ({ attempt with result := .error e }, counted)
  | .ok token =>
    ({ attempt with
        result := .ok ()
        events := attempt.events ++ [.loggedIn c.base.text c.strategy.name] },
      { counted with token })

/-! ## Reading -/

/-- The text of the secret in the body of a reply: the field `data` of the object, written anew. -/
def extractData (url : String) (body : String) : Except Failure String :=
  match Json.decode Json.objectReader body with
  | .error e => .error (.bodyInvalid url e.message)
  | .ok members =>
    match Json.Value.member? "data" members with
    | some data => .ok data.text
    | none => .error (.dataMissing url body)

/-- The result of reading a secret, by the final reply. -/
def readResult (url : String) (reply : Http.Reply) : Except Failure String :=
  match reply.text? with
  | none => .error (.requestFailed url Http.TransportError.body.message)
  | some body =>
    if reply.status = 200 then extractData url body
    else .error (.unexpectedStatus reply.status url body)

/-- The request for a secret. -/
def readOrder (c : Client) (path : String) : Http.Order :=
  { method := .get, url := c.endpoint (SecretPath.apiPath path), token := some c.token }

/-- Reads the text of the secret at a path. -/
def read (c : Client) (path : String) (peer : Http.Peer) : Attempt String :=
  let order := c.readOrder path
  let exchange := order.send peer
  { result := match exchange.result with
      | .error e => .error (.requestFailed order.url e.message)
      | .ok reply => readResult order.url reply
    events := [.reading order.url]
    requests := exchange.requests }

/-- Reads the secret at a path as a value of a known shape. -/
def readAs {α : Type} (c : Client) (reader : Json.Reader α) (path : String) (peer : Http.Peer) :
    Attempt α :=
  let attempt := c.read path peer
  { attempt with
    result := match attempt.result with
      | .error e => .error e
      | .ok data => (Json.decode reader data).mapError .json }

/-- Reads a secret that is a single text, in the field `value`. -/
def secretReader : Json.Reader String := Json.fieldReader ⟨"SecretValue", ["value"]⟩ Json.textReader

/-- Reads the field `value` of the secret at a path. -/
def readValue (c : Client) (path : String) (peer : Http.Peer) : Attempt String :=
  c.readAs secretReader path peer

/-! ## Revoking -/

/-- The request that revokes the token. -/
def revokeOrder (c : Client) : Http.Order :=
  { method := .post, url := c.endpoint "/v1/auth/token/revoke-self", token := some c.token }

/-- Revokes the token and forgets it. Nothing is done for tokens that cannot be revoked. -/
def revoke (c : Client) (peer : Http.Peer) : Attempt Unit × Client :=
  if c.strategy.isRevocable then
    let order := c.revokeOrder
    let exchange := order.send peer
    match exchange.result with
    | .error e =>
      ({ result := .error (.requestFailed order.url e.message)
         events := [.revocationUnsent order.url e.message]
         requests := exchange.requests }, c)
    | .ok reply =>
      if reply.status = 204 then
        ({ result := .ok (), events := [.revoked], requests := exchange.requests },
          { c with token := "" })
      else
        ({ result := .error (.unexpectedStatus reply.status order.url reply.errorText)
           events := [.revocationRefused reply.status order.url]
           requests := exchange.requests }, c)
  else ({ result := .ok (), events := [.revocationSkipped c.strategy.name] }, c)

end Client

end SecretClient
