import SecretClient.Text.Utf8
import SecretClient.Url.Parse

/-!
# Requests and replies

What goes to a peer and what comes back.
-/

namespace SecretClient.Http

/-- The method of a request. -/
inductive Method where
  | get
  | post
deriving DecidableEq, Repr

/-- The name of a method. -/
def Method.name : Method → String
  | get => "GET"
  | post => "POST"

/-- A request as the peer sees it. -/
structure Request where
  method : Method
  target : Url
  /-- The header with the token. -/
  token : Option String := none
  /-- A JSON body, which its content type goes along with. -/
  body : Option String := none
  authorization : Option String := none

/-- The content type of a request. -/
def Request.contentType (r : Request) : Option String := r.body.map fun _ => "application/json"

/-- The URL that a request names: without the fragment, which is not sent. -/
def Request.url (r : Request) : String := r.target.withoutFragment.text

/-- The body of a reply: all of its bytes, or a body that ends too early. -/
inductive Body where
  | complete (bytes : List UInt8)
  | cut
deriving DecidableEq, Repr

/-- A reply of which status and headers arrived. -/
structure Reply where
  status : Nat
  location : Option String := none
  sent : Body := .complete []
deriving DecidableEq, Repr

/-- The body that arrives: replies with the status 204 or 304 have none. -/
def Reply.body (r : Reply) : Body :=
  if r.status = 204 ∨ r.status = 304 then .complete [] else r.sent

/-- The text of a body, if all of it arrived. -/
def Reply.text? (r : Reply) : Option String :=
  match r.body with
  | .complete bytes => some (String.ofList (Utf8.lossy bytes))
  | .cut => none

/-- The text of the body of an error, for which a body that ends too early counts as empty. -/
def Reply.errorText (r : Reply) : String := r.text?.getD ""

end SecretClient.Http
