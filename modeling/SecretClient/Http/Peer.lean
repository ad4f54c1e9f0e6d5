import SecretClient.Http.Message

/-!
# Peers

The other end of the connections, as a script: what it answers to one request after the other. A peer
that cannot be reached sees no request at all, and one without a certificate none that is to be
encrypted.
-/

namespace SecretClient.Http

/-- What a peer does with a request. -/
inductive Answer where
  | reply (r : Reply)
  /-- Nothing that could be read as a reply comes back. -/
  | silence
deriving DecidableEq, Repr

/-- A peer. When its script is at its end it answers no more. -/
structure Peer where
  reachable : Bool := true
  /-- Whether it has a certificate that the client accepts. -/
  certified : Bool := false
  script : List Answer := []
deriving DecidableEq, Repr

/-- Whether a request to the URL arrives: a connection with encryption takes a certificate. -/
def Peer.sees (p : Peer) (target : Url) : Bool :=
  p.reachable && (target.scheme == "http" || p.certified)

/-- What the peer does with the next request, and the peer after it. -/
def Peer.next (p : Peer) : Answer × Peer :=
  match p.script with
  | [] => (.silence, p)
  | a :: rest => (a, { p with script := rest })

end SecretClient.Http
