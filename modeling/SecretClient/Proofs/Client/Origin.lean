import SecretClient.Proofs.Client.Confined
import SecretClient.Proofs.Http.Origin

/-!
# Where the credentials of a client go

Every operation first asks the host and the port of the address of the client. From there only a
redirect leads away, and it takes the token along; it takes a login along if it repeats the request.

* `credentials_stay` : the requests of a run go to the address, or an answer before them leads away
* `credentials_leave` : redirects by which a token and a login go to another host
-/

namespace SecretClient.Client

variable {c : Client} {peer : Http.Peer}

/-- The first request of an operation goes to the host and the port of the address. -/
theorem sameOrigin_of_first {address : String} (hparse : Url.parse address = .ok c.base)
    (hhttp : c.base.isHttp = true) {operation : Operation} {o : Http.Order}
    (ho : c.order? operation = some o) {q : Http.Request}
    (h : (o.send peer).requests[0]? = some q) : Http.sameOrigin q.target c.base = true := by
  obtain ⟨u, hu, htarget, -⟩ := first_request ho h
  obtain ⟨path, hurl⟩ := exists_path_of_order? ho
  rw [hurl] at hu
  obtain ⟨hsame, -⟩ := (Url.confines_withPath hparse hhttp path).reread u hu
  have hbase := Http.sameOrigin_of_eq hsame.scheme hsame.authority
  rw [htarget]
  split
  · exact Http.sameOrigin_trans (Http.sameOrigin_withoutUserinfo u) hbase
  · exact hbase

theorem sameOrigin_or_leadsAway {address : String} (hparse : Url.parse address = .ok c.base)
    (hhttp : c.base.isHttp = true) {operation : Operation} {k : Nat} {q : Http.Request}
    (h : (c.perform operation peer).1.requests[k]? = some q) :
    Http.sameOrigin q.target c.base = true ∨
      ∃ j < k, Http.LeadsAway (c.perform operation peer).1.requests peer j := by
  cases ho : c.order? operation with
  | none =>
    rw [requests_of_order?_none ho] at h
    cases h
  | some o =>
    rw [(carries_perform ho).requests] at h ⊢
    have hlt := (List.getElem?_eq_some_iff.mp h).1
    have hfirst : (o.send peer).requests[0]? = some _ := List.getElem?_eq_getElem (by omega)
    rcases Http.Order.sameOrigin_or_leadsAway hfirst h with hstay | haway
    · exact Or.inl (Http.sameOrigin_trans hstay (sameOrigin_of_first hparse hhttp ho hfirst))
    · exact Or.inr haway

/-- A request with a body is the one of a login, repeated by all redirects before it. -/
theorem repeated_of_body {operation : Operation} {k : Nat} {q : Http.Request}
    (h : (c.perform operation peer).1.requests[k]? = some q) (hbody : q.body.isSome = true) :
    ∀ j < k, ∀ reply, peer.script[j]? = some (.reply reply) → reply.status ∈ [307, 308] := by
  cases ho : c.order? operation with
  | none =>
    rw [requests_of_order?_none ho] at h
    cases h
  | some o =>
    rw [(carries_perform ho).requests] at h
    obtain ⟨rfl, hmethod⟩ := (body_of_request ho (List.mem_of_getElem? h)).1.mp hbody
    rcases order?_eq_some ho with ⟨hread, -⟩ | ⟨hrevoke, -⟩ | ⟨a, -, -, hpost, -⟩
    · exact hread.elim
    · cases hrevoke
    · exact (Http.Order.method_post_iff hpost h).mp hmethod

/-- **The requests of a run stay with the address of the client**, with or without credentials: each
of them goes to its host and port, or an answer before it in the same step is a redirect that leads to
another host or port. A login goes there only if all answers before it repeat the request. -/
theorem credentials_stay {address : String} (hparse : Url.parse address = .ok c.base)
    (hhttp : c.base.isHttp = true) (steps : List (Operation × Http.Peer)) :
    ∀ (i : Nat) operation peer s, steps[i]? = some (operation, peer) → (c.run steps)[i]? = some s →
      ∀ (k : Nat) q, s.attempt.requests[k]? = some q →
        (Http.sameOrigin q.target c.base = true ∨
          ∃ j < k, Http.LeadsAway s.attempt.requests peer j) ∧
        (q.body.isSome = true → ∀ j < k, ∀ reply, peer.script[j]? = some (.reply reply) →
          reply.status ∈ [307, 308]) := by
  intro i operation peer s hstep hs k q hq
  rw [getElem?_run, hstep] at hs
  cases hs
  have hbase := stateAt_base c steps i
  have horigin := sameOrigin_or_leadsAway (c := c.stateAt steps i) (by rw [hbase]; exact hparse)
    (by rw [hbase]; exact hhttp) hq
  rw [hbase] at horigin
  exact ⟨horigin, repeated_of_body hq⟩

/-- A login that is redirected within the address, and a read. -/
theorem credentials_stay_exampleClient : Url.parse "http://v/" = .ok exampleClient.base ∧
    ∀ s, (exampleClient.run exampleSteps)[0]? = some s → ∀ q, s.attempt.requests[1]? = some q →
      Http.sameOrigin q.target exampleClient.base = true := by
  have hparse : Url.parse "http://v/" = .ok exampleClient.base := rfl
  refine ⟨hparse, fun s hs q hq => ?_⟩
  rcases (credentials_stay hparse rfl exampleSteps 0 .login _ s rfl hs 1 q hq).1 with hstay | haway
  · exact hstay
  · obtain ⟨j, hj, hop, reply, location, u, -, hanswer, -, hlocation, hnames, -⟩ := haway
    -- the one redirect names a path only
    obtain rfl : j = 0 := by omega
    cases hanswer
    cases hlocation
    have hnone : Url.namesAuthority hop.target "/x" = false := by
      unfold Url.namesAuthority
      cases hop.target.kind <;> decide
    rw [hnone] at hnames
    cases hnames

/-- A client with a token that was given. -/
def tokenClient : Client where
  base := exampleClient.base
  strategy := .static "t"

/-- A peer that sends every request to another host and has it repeated there. -/
def leavingPeer : Http.Peer where
  script := [.reply { status := 307, location := some "http://w/" }, .reply { status := 200 }]

/-- **Credentials go to another host**: a redirect there takes the token of a read along, and the
credentials of a login. -/
theorem credentials_leave : Url.parse "http://v/" = .ok exampleClient.base ∧
    (∃ s q, (tokenClient.run [(.login, {}), (.read "a", leavingPeer)])[1]? = some s ∧
      s.attempt.requests[1]? = some q ∧ q.token = some "t" ∧
      Http.sameOrigin q.target tokenClient.base = false) ∧
    ∃ s q body, (exampleClient.run [(.login, leavingPeer)])[0]? = some s ∧
      s.attempt.requests[1]? = some q ∧ q.body = some body ∧
      Http.sameOrigin q.target exampleClient.base = false := by
  refine ⟨rfl, ?_, ?_⟩
  · have hsent : (((tokenClient.run [(.login, {}), (.read "a", leavingPeer)])[1]?.bind
        (·.attempt.requests[1]?)).map fun q =>
          (q.token, Http.sameOrigin q.target tokenClient.base)) = some (some "t", false) := by
      decide +kernel
    obtain ⟨q, hq, heq⟩ := Option.map_eq_some_iff.mp hsent
    obtain ⟨s, hs, hq⟩ := Option.bind_eq_some_iff.mp hq
    obtain ⟨htoken, haway⟩ := Prod.mk.inj heq
    exact ⟨s, q, hs, hq, htoken, haway⟩
  · have hsent : (((exampleClient.run [(.login, leavingPeer)])[0]?.bind
        (·.attempt.requests[1]?)).map fun q =>
          (q.body.isSome, Http.sameOrigin q.target exampleClient.base)) = some (true, false) := by
      decide +kernel
    obtain ⟨q, hq, heq⟩ := Option.map_eq_some_iff.mp hsent
    obtain ⟨s, hs, hq⟩ := Option.bind_eq_some_iff.mp hq
    obtain ⟨hbody, haway⟩ := Prod.mk.inj heq
    obtain ⟨body, hbody⟩ := Option.isSome_iff_exists.mp hbody
    exact ⟨s, q, body, hs, hq, hbody, haway⟩

end SecretClient.Client
