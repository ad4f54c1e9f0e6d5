import SecretClient.Client.Basic

/-!
# Building clients

A builder collects settings, of which the last one of each kind counts. What is not set comes from
an environment: the one that is given, or that of the process.
-/

namespace SecretClient

/-- A setting of a client. -/
inductive Setting where
  | address (url : String)
  | environ (env : Environ)
  | timeout (milliseconds : Nat)
  | strategy (s : Strategy)

/-- The settings of a client. -/
structure Builder where
  address : Option String := none
  environ : Option Environ := none
  timeout : Nat := 5000
  strategy : Option Strategy := none

namespace Builder

/-- Adds a setting, in the place of an earlier one of its kind. -/
def set (b : Builder) : Setting → Builder
  | .address url => { b with address := some url }
  | .environ env => { b with environ := some env }
  | .timeout ms => { b with timeout := ms }
  | .strategy s => { b with strategy := some s }

/-- The builder with some settings, added in order. -/
def ofList (settings : List Setting) : Builder := settings.foldl set {}

/-- The address of the client. -/
def base (b : Builder) (env : Environ) : Except Failure Url :=
  match b.address.or (env "VAULT_ADDR") with
  | none => .error .addressMissing
  | some address => (Url.parse address).mapError (.addressInvalid address)

/-- The strategy of the client. -/
def chosenStrategy (b : Builder) (env : Environ) (files : FileSystem) :
    Logged (Except Failure Strategy) :=
  match b.strategy with
  | some s => pure (.ok s)
  | none => Strategy.select env files

/-- Builds the client. The address is looked at before the strategy. -/
def build (b : Builder) (process : Environ) (files : FileSystem) :
    Logged (Except Failure Client) := do
  let env := b.environ.getD process
  match b.base env with
  | .error e => return .error e
  | .ok base =>
    match ← b.chosenStrategy env files with
    | .error e => return .error e
    | .ok strategy =>
      Logged.emit (.clientBuilt base.text strategy.name)
      return .ok { base, strategy, timeout := b.timeout }

end Builder

end SecretClient
