import SecretClient.Client.Basic

/-!
# Runs

A run is a sequence of operations on one client, each with the peer that it meets.
-/

namespace SecretClient

/-- The shapes in which a secret can be read. -/
inductive Shape where
  | value
  | text
  | textMap
  | naturals
  /-- A user name and a password. -/
  | credentials
deriving DecidableEq, Repr

/-- A secret of a known shape. -/
inductive Secret where
  | value (v : Json.Value)
  | text (t : String)
  | textMap (members : List (String × String))
  | naturals (ns : List Nat)
  | credentials (fields : List String)
deriving Repr

/-- Reads a secret of a shape. -/
def Shape.reader : Shape → Json.Reader Secret
  | value => fun s => Json.mapValue .value (Json.valueReader Json.maxDepth s)
  | text => fun s => Json.mapValue .text (Json.textReader s)
  | textMap => fun s => Json.mapValue .textMap (Json.mapReader Json.textReader s)
  | naturals => fun s => Json.mapValue .naturals (Json.listReader Json.naturalReader s)
  | credentials => fun s => Json.mapValue .credentials
      (Json.recordReader ⟨"Credentials", ["username", "password"]⟩ Json.textReader s)

/-- An operation on a client. -/
inductive Operation where
  | login
  | read (path : String)
  | readValue (path : String)
  | readAs (shape : Shape) (path : String)
  | revoke
deriving DecidableEq, Repr

/-- What an operation gives when it succeeds. -/
inductive Output where
  | done
  | text (t : String)
  | secret (s : Secret)
deriving Repr

namespace Attempt

/-- Replaces the value of a result. -/
def map {α β : Type} (f : α → β) (a : Attempt α) : Attempt β :=
  { a with result := a.result.map f }

end Attempt

namespace Client

/-- Carries an operation out. -/
def perform (c : Client) (operation : Operation) (peer : Http.Peer) : Attempt Output × Client :=
  match operation with
  | .login =>
    let (attempt, after) := c.login peer
    (attempt.map fun _ => .done, after)
  | .read path => ((c.read path peer).map .text, c)
  | .readValue path => ((c.readValue path peer).map .text, c)
  | .readAs shape path => ((c.readAs shape.reader path peer).map .secret, c)
  | .revoke =>
    let (attempt, after) := c.revoke peer
    (attempt.map fun _ => .done, after)

/-- What a step of a run comes to: what came of the operation, and the client after it. -/
structure Step where
  attempt : Attempt Output
  after : Client

/-- Carries operations out one after the other. -/
def run (c : Client) : List (Operation × Http.Peer) → List Step
  | [] => []
  | (operation, peer) :: rest =>
    let (attempt, after) := c.perform operation peer
    ⟨attempt, after⟩ :: after.run rest

end Client

end SecretClient
