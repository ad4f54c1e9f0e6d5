/-!
# Paths of secrets

A path names a secret by segments between slashes. Runs of slashes count as one, and every secret
lives under `/v1`.
-/

namespace SecretClient.SecretPath

/-- Collapses every run of slashes to one. -/
def collapse : List Char → List Char
  | '/' :: '/' :: rest => collapse ('/' :: rest)
  | c :: rest => c :: collapse rest
  | [] => []

/-- The path with every run of slashes collapsed. -/
def normalize (path : String) : String := String.ofList (collapse path.toList)

/-- The path of a request for a secret. The empty path is `/v1` itself. -/
def apiChars (path : List Char) : List Char :=
  match collapse path with
  | [] => ['/', 'v', '1']
  | '/' :: rest => ['/', 'v', '1', '/'] ++ rest
  | normal => ['/', 'v', '1', '/'] ++ normal

/-- The path of a request for a secret. -/
def apiPath (path : String) : String := String.ofList (apiChars path.toList)

end SecretClient.SecretPath
