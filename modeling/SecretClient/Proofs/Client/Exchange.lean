import SecretClient.Proofs.Client.Order
import SecretClient.Proofs.Http.Requests

/-!
# The exchange of an operation

Which requests an operation sends. Each operation carries out one order at most (`Client.order?`), so
its requests are those of a chain of redirects.

* `exchange_shape` : how many requests there are, how they begin, how they follow from each other, and
  when no more are sent
-/

namespace SecretClient

open Http (TransportError)

namespace Client

variable {c : Client} {peer : Http.Peer}

theorem first_request {operation : Operation} {o : Http.Order} (ho : c.order? operation = some o)
    {q : Http.Request} (h : (o.send peer).requests[0]? = some q) :
    ∃ u, Url.parse o.url = .ok u ∧
      q.target = (if (Http.credentials? u).isSome then u.withoutUserinfo else u) ∧
      (operation.IsRead → q.method = .get) ∧ (¬ operation.IsRead → q.method = .post) := by
  obtain ⟨u, hu, htarget, hmethod, -⟩ := Http.Order.request_eq (Http.Order.request_of_first h)
  refine ⟨u, hu, htarget, ?_⟩
  rw [hmethod]
  rcases order?_eq_some ho with ⟨hread, hget, -⟩ | ⟨rfl, hpost, -⟩ | ⟨a, rfl, -, hpost, -⟩
  · exact ⟨fun _ => hget, fun hnot => absurd hread hnot⟩
  · exact ⟨fun hread => hread.elim, fun _ => hpost⟩
  · exact ⟨fun hread => hread.elim, fun _ => hpost⟩

/-- A request follows an answer that sends the client on to the URL of the request. -/
theorem later_request {o : Http.Order} {i : Nat} {q q' : Http.Request}
    (h : (o.send peer).requests[i]? = some q) (h' : (o.send peer).requests[i + 1]? = some q') :
    ∃ reply location u, peer.script[i]? = some (.reply reply) ∧
      reply.status ∈ [301, 302, 303, 307, 308] ∧ reply.location = some location ∧
      Url.join q.target location = .ok u ∧ q' = q.redirected reply.status u := by
  obtain ⟨answer, hanswer, reply, u, rfl, htarget, -, heq⟩ := Http.Order.followed h h'
  obtain ⟨hstatus, location, hlocation, hjoin, -⟩ := Http.target?_eq_some_iff.mp htarget
  exact ⟨reply, location, u, hanswer, List.contains_iff_mem.mp hstatus, hlocation, hjoin, heq⟩

/-- Only the requests of a login that are made with POST have a body: the credentials. -/
theorem body_of_request {operation : Operation} {o : Http.Order} (ho : c.order? operation = some o)
    {q : Http.Request} (h : q ∈ (o.send peer).requests) :
    (q.body.isSome = true ↔ operation = .login ∧ q.method = .post) ∧
      ∀ body, q.body = some body → ∃ a, c.strategy = .appId a ∧ body = a.loginBody := by
  have hq := Http.Order.method_and_body q h
  have hempty : o.body = none → q.body = none := by
    intro hnone
    rcases hq with ⟨-, hq⟩ | ⟨-, hq⟩
    · rw [hq, hnone]
    · exact hq
  rcases order?_eq_some ho with ⟨hread, -, hnone, -⟩ | ⟨rfl, -, hnone, -⟩ |
    ⟨a, rfl, ha, hpost, hbody, -⟩
  · have hop : operation ≠ .login := by
      rintro rfl
      exact hread
    simp [hempty hnone, hop]
  · simp [hempty hnone]
  · rcases hq with ⟨hmethod, hq⟩ | ⟨hmethod, hq⟩
    · rw [hmethod, hq, hpost, hbody]
      refine ⟨by simp, fun body hsome => ⟨a, ha, (Option.some.inj hsome).symm⟩⟩
    · simp [hmethod, hq]

/-- Behind an answer that is not followed no request is sent. -/
theorem last_request {o : Http.Order} {i : Nat} {q : Http.Request}
    (h : (o.send peer).requests[i]? = some q)
    (hlast : ∀ reply u, peer.script[i]? = some (.reply reply) →
      reply.target? q.target = some u → u.isHttp = false) :
    (o.send peer).requests.length = i + 1 := by
  have hlt := (List.getElem?_eq_some_iff.mp h).1
  rcases Nat.lt_or_ge (i + 1) (o.send peer).requests.length with hmore | hend
  · obtain ⟨answer, hanswer, reply, u, rfl, htarget, hhttp, -⟩ :=
      Http.Order.followed h (List.getElem?_eq_getElem hmore)
    rw [hlast reply u hanswer htarget] at hhttp
    cases hhttp
  · omega

/-- **The shape of every exchange**, of eleven requests at most. The first goes to the URL of the
operation, without the user that it names. Each of the others follows a redirect from the one before it,
with GET behind 301, 302 and 303. Only a login has a body, as long as it is sent with POST. The exchange
ends with the first reply that sends the client nowhere, and an eleventh reply that sends it on is a
failure. -/
theorem exchange_shape (c : Client) (operation : Operation) (peer : Http.Peer) :
    (c.perform operation peer).1.requests.length ≤ 11 ∧
    (∀ q, (c.perform operation peer).1.requests[0]? = some q →
      ∃ o u, c.order? operation = some o ∧ Url.parse o.url = .ok u ∧
        q.target = (if (Http.credentials? u).isSome then u.withoutUserinfo else u) ∧
        (operation.IsRead → q.method = .get) ∧ (¬ operation.IsRead → q.method = .post)) ∧
    (∀ (i : Nat) q q', (c.perform operation peer).1.requests[i]? = some q →
      (c.perform operation peer).1.requests[i + 1]? = some q' →
      ∃ reply location u, peer.script[i]? = some (.reply reply) ∧
        reply.status ∈ [301, 302, 303, 307, 308] ∧ reply.location = some location ∧
        Url.join q.target location = .ok u ∧ q' = q.redirected reply.status u) ∧
    (∀ (i j : Nat) (reply : Http.Reply) q, i < j → peer.script[i]? = some (.reply reply) →
      reply.status ∈ [301, 302, 303] → (c.perform operation peer).1.requests[j]? = some q →
      q.method = .get) ∧
    (∀ q ∈ (c.perform operation peer).1.requests,
      (q.body.isSome = true ↔ operation = .login ∧ q.method = .post) ∧
      (q.contentType.isSome = true ↔ operation = .login ∧ q.method = .post) ∧
      ∀ body, q.body = some body → ∃ a, c.strategy = .appId a ∧ body = a.loginBody) ∧
    (∀ (i : Nat) q, (c.perform operation peer).1.requests[i]? = some q →
      (∀ reply u, peer.script[i]? = some (.reply reply) → reply.target? q.target = some u →
        u.isHttp = false) →
      (c.perform operation peer).1.requests.length = i + 1) ∧
    (∀ q reply u, (c.perform operation peer).1.requests[10]? = some q →
      peer.script[10]? = some (.reply reply) → reply.target? q.target = some u →
      ∃ o, c.order? operation = some o ∧ (c.perform operation peer).1.result
        = .error (.requestFailed o.url (TransportError.redirect q.target.text).message)) := by
  cases ho : c.order? operation with
  | none => simp [requests_of_order?_none ho]
  | some o =>
    have hcarries : (c.perform operation peer).1.Carries o peer := carries_perform ho
    obtain ⟨hrequests, hunanswered⟩ := hcarries
    rw [hrequests]
    refine ⟨Http.Order.length_requests_le, ?_, ?_, ?_, ?_, ?_, ?_⟩
    · intro q h
      obtain ⟨u, hfirst⟩ := first_request ho h
      exact ⟨o, u, rfl, hfirst⟩
    · intro i q q' h h'
      exact later_request h h'
    · intro i j reply q hij hanswer hstatus h
      refine Http.Order.method_of_redirect hanswer (fun hrepeated => ?_) hij h
      simp only [List.mem_cons, List.not_mem_nil, or_false] at hstatus hrepeated
      omega
    · intro q h
      obtain ⟨hbody, hcredentials⟩ := body_of_request ho h
      refine ⟨hbody, ?_, hcredentials⟩
      rw [Http.Request.contentType, Option.isSome_map, hbody]
    · intro i q h hlast
      exact last_request h hlast
    · intro q reply u h hanswer htarget
      exact ⟨o, rfl, hunanswered _ (Http.Order.send_of_redirect h hanswer htarget)⟩

end Client

end SecretClient
