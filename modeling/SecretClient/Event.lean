import SecretClient.Text.Quoted

/-!
# Events

What the client tells about its work as it goes on.
-/

namespace SecretClient

/-- How much an event matters. -/
inductive Level where
  | debug
  | info
  | warn
deriving DecidableEq, Repr

/-- The name of a level. -/
def Level.name : Level → String
  | debug => "debug"
  | info => "info"
  | warn => "warn"

/-- Something that happened. -/
inductive Event where
  /-- The file that a variable names gives no text. -/
  | fileUnreadable (name : String) (path : String) (reason : String)
  /-- The token comes from a file of the user. -/
  | tokenFileUsed (path : String)
  | clientBuilt (base : String) (strategy : String)
  | loggingIn (url : String)
  | loggedIn (base : String) (strategy : String)
  | reading (url : String)
  /-- The tokens of the strategy cannot be revoked. -/
  | revocationSkipped (strategy : String)
  /-- A revocation got no reply. -/
  | revocationUnsent (url : String) (reason : String)
  /-- A revocation got a reply that does not acknowledge it. -/
  | revocationRefused (status : Nat) (url : String)
  | revoked
deriving DecidableEq, Repr

namespace Event

/-- How much an event matters. -/
def level : Event → Level
  | fileUnreadable .. | revocationUnsent .. | revocationRefused .. => .warn
  | loggedIn .. => .info
  | _ => .debug

/-- The text of an event. -/
def text : Event → String
  | fileUnreadable name path reason =>
    "Failed to read " ++ name ++ " from " ++ path ++ ": " ++ reason
  | tokenFileUsed path => "Using Vault token from " ++ String.ofList (Quoted.encode path.toList)
  | clientBuilt base strategy => "Vault client for " ++ base ++ " using " ++ strategy ++ " auth"
  | loggingIn url => "Logging in to Vault via " ++ url
  | loggedIn base strategy => "Logged in to Vault at " ++ base ++ " with " ++ strategy ++ " auth"
  | reading url => "Reading secret from " ++ url
  | revocationSkipped strategy => strategy ++ " auth token is not revocable, skipping"
  | revocationUnsent url reason => "Error while revoking Vault token at " ++ url ++ ": " ++ reason
  | revocationRefused status url =>
    "Unexpected HTTP status " ++ toString status ++ " on revoke-self from " ++ url
  | revoked => "Vault token revoked"

end Event

/-- A value with the events on the way to it. -/
structure Logged (α : Type) where
  value : α
  events : List Event := []

namespace Logged

instance : Monad Logged where
  pure a := { value := a }
  bind x f :=
    let y := f x.value
    { value := y.value, events := x.events ++ y.events }

/-- One event. -/
def emit (e : Event) : Logged Unit := { value := (), events := [e] }

@[simp] theorem value_pure {α : Type} (a : α) : (pure a : Logged α).value = a := rfl

@[simp] theorem events_pure {α : Type} (a : α) : (pure a : Logged α).events = [] := rfl

@[simp] theorem value_emit (e : Event) : (emit e).value = () := rfl

@[simp] theorem events_emit (e : Event) : (emit e).events = [e] := rfl

@[simp] theorem value_bind {α β : Type} (x : Logged α) (f : α → Logged β) :
    (x >>= f).value = (f x.value).value := rfl

@[simp] theorem events_bind {α β : Type} (x : Logged α) (f : α → Logged β) :
    (x >>= f).events = x.events ++ (f x.value).events := rfl

end Logged

end SecretClient
