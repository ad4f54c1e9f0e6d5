import SecretClient.Json.Fault
import SecretClient.Url.Error

/-!
# Failures

Why an operation of the client fails. A failure that speaks of a request names the URL of the
operation, wherever a redirect may have led.
-/

namespace SecretClient

/-- Why an operation fails. -/
inductive Failure where
  /-- No address is given. -/
  | addressMissing
  /-- The address is no URL. -/
  | addressInvalid (address : String) (cause : Url.ParseError)
  /-- No way to get a token is given. -/
  | strategyMissing
  /-- The reply has another status than the operation needs. -/
  | unexpectedStatus (status : Nat) (url : String) (body : String)
  /-- There is no reply, or a body that ends too early. -/
  | requestFailed (url : String) (message : String)
  /-- The body is no JSON object. -/
  | bodyInvalid (url : String) (message : String)
  /-- The body is an object without the field that holds a secret. -/
  | dataMissing (url : String) (body : String)
  /-- No token came of an authentication. -/
  | authentication (message : String)
  /-- Something could not be read or written. -/
  | io (message : String)
  /-- A secret has not the shape asked for. -/
  | json (error : Json.Error)
deriving DecidableEq, Repr

namespace Failure

/-- The text of a failure. -/
def message : Failure → String
  | addressMissing => "Vault not detected: VAULT_ADDR not set"
  | addressInvalid address cause =>
    "VAULT_ADDR is an unparseable URL (" ++ address ++ "): " ++ cause.message
  | strategyMissing =>
    "No Vault auth strategy configured: set VAULT_APP_ID/VAULT_USER_ID or VAULT_TOKEN"
  | unexpectedStatus status url body =>
    "Unexpected HTTP status " ++ toString status ++ " from " ++ url ++ ": " ++ body
  | requestFailed url message => "Vault request to " ++ url ++ " failed: " ++ message
  | bodyInvalid url message => "Invalid JSON body from " ++ url ++ ": " ++ message
  | dataMissing url body =>
    "Unexpected HTTP body from " ++ url ++ ", no \"data\" field: " ++ body
  | authentication message => "Authentication failed: " ++ message
  | io message => "IO error: " ++ message
  | json error => "JSON error: " ++ error.message

/-- The status of the reply, for a failure that speaks of one. -/
def status? : Failure → Option Nat
  | unexpectedStatus status _ _ => some status
  | _ => none

end Failure

end SecretClient
