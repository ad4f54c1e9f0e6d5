import SecretClient.Environ
import SecretClient.Failure
import SecretClient.Http.Exchange
import SecretClient.Json.Shape

/-!
# Ways to get a token

A strategy says how the client gets its token: by a login with an application ID and a user ID, or by
a token that is given. `Strategy.select` chooses one by the environment.
-/

namespace SecretClient

/-- What came of an operation: its result, the events on the way, and the requests that the peer
saw. -/
structure Attempt (α : Type) where
  result : Except Failure α
  events : List Event := []
  requests : List Http.Request := []

/-- The credentials of a login by application and user. -/
structure AppId where
  appId : String
  userId : String
  /-- The place of the login under `/v1/auth`. -/
  mount : String := "app-id"
deriving DecidableEq, Repr

namespace AppId

/-- The URL of the login. -/
def loginUrl (a : AppId) (base : Url) : Url := base.withPath ("/v1/auth/" ++ a.mount ++ "/login")

/-- The body of the login: the two credentials, in this order. -/
def loginBody (a : AppId) : String :=
  String.ofList (Json.listText '\x7b' '\x7d'
    [Json.memberText "app_id" (Json.stringText a.appId),
      Json.memberText "user_id" (Json.stringText a.userId)])

/-- The request of the login. -/
def loginOrder (a : AppId) (base : Url) : Http.Order :=
  { method := .post, url := (a.loginUrl base).text, body := some a.loginBody }

/-- Reads the token of a login reply: the field `client_token` of the field `auth`. -/
def tokenReader : Json.Reader String :=
  Json.fieldReader ⟨"LoginResponse", ["auth"]⟩
    (Json.fieldReader ⟨"AuthData", ["client_token"]⟩ Json.textReader)

/-- The token of a login reply. -/
def token? (bytes : List UInt8) : Option String :=
  (Json.whole tokenReader (Utf8.items bytes)).toOption

/-- The result of a login, by the final reply. -/
def loginResult (url : String) (reply : Http.Reply) : Except Failure String :=
  if reply.status = 200 then
    match reply.body with
    | .complete bytes =>
      match token? bytes with
      | some token => .ok token
      | none => .error (.authentication (invalidReply url))
    | .cut => .error (.authentication (invalidReply url))
  else .error (.unexpectedStatus reply.status url reply.errorText)
where
  /-- What is said of a reply that gives no token. -/
  invalidReply (url : String) : String :=
    "Invalid App-ID login response from " ++ url ++ ": " ++ Http.TransportError.body.message

/-- Logs in. -/
def login (a : AppId) (base : Url) (peer : Http.Peer) : Attempt String :=
  let order := a.loginOrder base
  let exchange := order.send peer
  { result := match exchange.result with
      | .error e => .error (.requestFailed order.url e.message)
      | .ok reply => loginResult order.url reply
    events := [.loggingIn order.url]
    requests := exchange.requests }

/-- The credentials that the environment gives: both or none. The mount is kept without the slashes
at its ends. -/
def select (env : Environ) (files : FileSystem) : Logged (Option AppId) := do
  match ← env.setting files "VAULT_APP_ID" with
  | none => return none
  | some appId =>
    match ← env.setting files "VAULT_USER_ID" with
    | none => return none
    | some userId =>
      match env.nonEmpty? "VAULT_AUTH_APP_ID_MOUNT" with
      | none => return some { appId, userId }
      | some mount =>
        let mount := String.ofList (Blank.trimWhile (· == '/') mount.toList)
        return some { appId, userId, mount }

end AppId

/-! ## Given tokens -/

namespace StaticToken

/-- The token that a file of the user holds. A file that gives none is not spoken of. -/
def ofFile (files : FileSystem) (path : String) : Logged (Option String) :=
  match files.trimmed path with
  | .ok (some token) => do
    Logged.emit (.tokenFileUsed path)
    return some token
  | _ => pure none

/-- The token that the environment gives, or else the one in the file `.vault-token` of the user. -/
def select (env : Environ) (files : FileSystem) : Logged (Option String) := do
  match ← env.setting files "VAULT_TOKEN" with
  | some token => return some token
  | none =>
    match env "HOME" with
    | some home => ofFile files (joinPath home ".vault-token")
    | none => return none

end StaticToken

/-! ## Strategies -/

/-- A strategy from outside: what its `n`-th login gives without asking the peer. -/
structure CustomStrategy where
  name : String
  revocable : Bool
  issue : Nat → Except Failure String

/-- How the client gets its token. -/
inductive Strategy where
  | appId (credentials : AppId)
  | static (token : String)
  | custom (strategy : CustomStrategy)

namespace Strategy

/-- The name of a strategy. -/
def name : Strategy → String
  | appId _ => "app-id"
  | static _ => "token"
  | custom s => s.name

/-- Whether its tokens can be revoked. -/
def isRevocable : Strategy → Bool
  | appId _ => true
  | static _ => false
  | custom s => s.revocable

/-- Gets a token, by the login with the number `n`. -/
def token (s : Strategy) (n : Nat) (base : Url) (peer : Http.Peer) : Attempt String :=
  match s with
  | appId a => a.login base peer
  | static t => { result := .ok t }
  | custom c => { result := c.issue n }

/-- The strategy that the environment gives: application and user first, then a token. -/
def select (env : Environ) (files : FileSystem) : Logged (Except Failure Strategy) := do
  match ← AppId.select env files with
  | some a => return .ok (.appId a)
  | none =>
    match ← StaticToken.select env files with
    | some t => return .ok (.static t)
    | none => return .error .strategyMissing

end Strategy

end SecretClient
