import SecretClient.Proofs.Client.Exchange
import SecretClient.Proofs.Client.Token

/-!
# What a revocation is acknowledged by

A revocation succeeds by the status of the final reply alone. Without a redirect this is the answer to
the request that revokes the token; behind a redirect it may be the answer to another request, and the
token is forgotten all the same.

* `forgotten_iff_answered` : the token is forgotten exactly if a request of the step is answered with
  204, and when this request is one that revokes the token
* `forgotten_redirectingPeer` : a token is forgotten that no peer has revoked
-/

namespace SecretClient.Client

variable {c : Client} {peer : Http.Peer}

/-- The URL at which the token of a client is revoked, whoever is named in front of the host. -/
def IsRevocationUrl (c : Client) (target : Url) : Prop :=
  ∃ u, Url.parse (c.endpoint "/v1/auth/token/revoke-self") = .ok u ∧
    target.withoutUserinfo = u.withoutUserinfo

/-- A request that revokes the token of a client. -/
structure IsRevocation (c : Client) (q : Http.Request) : Prop where
  method : q.method = .post
  token : q.token = some c.token
  target : c.IsRevocationUrl q.target

/-- The request with the index `i` among those of a revocation is answered with 204. -/
structure AcceptedAt (c : Client) (peer : Http.Peer) (i : Nat) (q : Http.Request) : Prop where
  sent : (c.perform .revoke peer).1.requests[i]? = some q
  answered : ∃ reply, peer.script[i]? = some (.reply reply) ∧ reply.status = 204

/-! ## The requests of a revocation -/

section

variable (hr : c.strategy.isRevocable = true)
include hr

theorem requests_revoke (peer : Http.Peer) :
    (c.perform .revoke peer).1.requests = (c.revokeOrder.send peer).requests :=
  Attempt.Carries.requests (carries_perform (if_pos hr))

theorem revoke_done_iff : (c.perform .revoke peer).1.result = .ok .done ↔
    ∃ reply, (c.revokeOrder.send peer).result = .ok reply ∧ reply.status = 204 := by
  rw [perform_revoke]
  unfold Attempt.map revoke
  rw [if_pos hr]
  dsimp only
  cases (c.revokeOrder.send peer).result with
  | error e => simp [Except.map]
  | ok reply =>
    by_cases hstatus : reply.status = 204
    · simp [hstatus, Except.map]
    · simp [hstatus, Except.map]

/-- **A revocation succeeds exactly if one of its requests is answered with 204.** -/
theorem revoke_done_iff_acceptedAt :
    (c.perform .revoke peer).1.result = .ok .done ↔ ∃ i q, c.AcceptedAt peer i q := by
  rw [revoke_done_iff hr]
  constructor
  · rintro ⟨reply, hsend, hstatus⟩
    obtain ⟨i, q, hq, hanswer, -⟩ := Http.Order.send_ok_iff.mp hsend
    exact ⟨i, q, by rw [requests_revoke hr, hq], reply, hanswer, hstatus⟩
  · rintro ⟨i, q, hq, reply, hanswer, hstatus⟩
    rw [requests_revoke hr] at hq
    refine ⟨reply, Http.Order.send_ok_iff.mpr ⟨i, q, hq, hanswer, ?_⟩, hstatus⟩
    -- the status 204 is none of those that send the client on
    unfold Http.Reply.target?
    rw [hstatus]
    rfl

/-- The answer that makes a revocation succeed is the last one. -/
theorem AcceptedAt.length_requests {i : Nat} {q : Http.Request} (h : c.AcceptedAt peer i q) :
    (c.perform .revoke peer).1.requests.length = i + 1 := by
  obtain ⟨hq, reply, hanswer, hstatus⟩ := h
  rw [requests_revoke hr] at hq ⊢
  refine last_request hq fun reply' u hanswer' htarget => ?_
  cases hanswer.symm.trans hanswer'
  rw [Http.target?_eq_some_iff, hstatus] at htarget
  cases htarget.1

/-- The first request is the one that revokes the token. -/
theorem isRevocation_of_first {q : Http.Request}
    (h : (c.perform .revoke peer).1.requests[0]? = some q) : c.IsRevocation q := by
  rw [requests_revoke hr] at h
  have hsent := Http.Order.request_of_first h
  obtain ⟨u, hu, htarget, hmethod, -⟩ := Http.Order.request_eq hsent
  refine ⟨hmethod, (Http.Order.request_ok hsent).1, u, hu, ?_⟩
  rw [htarget]
  split
  · unfold Url.withoutUserinfo
    cases u.authority <;> rfl
  · rfl

/-- Which of the requests revoke the token: those that redirects repeat, at the same URL. -/
theorem isRevocation_iff {i : Nat} {q : Http.Request}
    (h : (c.perform .revoke peer).1.requests[i]? = some q) :
    c.IsRevocation q ↔
      (∀ j < i, ∀ reply, peer.script[j]? = some (.reply reply) → reply.status ∈ [307, 308]) ∧
        c.IsRevocationUrl q.target := by
  rw [requests_revoke hr] at h
  have hmethod := Http.Order.method_post_iff (o := c.revokeOrder) rfl h
  have htoken := Http.Order.send_token q (List.mem_of_getElem? h)
  exact ⟨fun hq => ⟨hmethod.mp hq.method, hq.target⟩,
    fun ⟨hrepeated, htarget⟩ => ⟨hmethod.mpr hrepeated, htoken, htarget⟩⟩

/-- **A token is forgotten when a request of its revocation is answered with 204**, and only then. The
answer belongs to a request that revokes the token if no redirect was followed, and else exactly if
the redirects repeated the request and led back to its URL. -/
theorem forgotten_iff_answered (peer : Http.Peer) :
    ((c.perform .revoke peer).1.result = .ok .done ↔ ∃ i q, c.AcceptedAt peer i q) ∧
    ((c.perform .revoke peer).1.result = .ok .done →
      (c.perform .revoke peer).2 = { c with token := "" }) ∧
    (∀ e, (c.perform .revoke peer).1.result = .error e → (c.perform .revoke peer).2 = c) ∧
    (∀ q, (c.perform .revoke peer).1.requests[0]? = some q → c.IsRevocation q) ∧
    ∀ i q, c.AcceptedAt peer i q →
      (c.perform .revoke peer).1.requests.length = i + 1 ∧
      (c.IsRevocation q ↔
        (∀ j < i, ∀ reply, peer.script[j]? = some (.reply reply) → reply.status ∈ [307, 308]) ∧
          c.IsRevocationUrl q.target) := by
  have heffect := revoke_effect c peer
  refine ⟨revoke_done_iff_acceptedAt hr, fun hdone => ?_, fun e he => ?_,
    fun q => isRevocation_of_first hr, fun i q h => ⟨h.length_requests hr, isRevocation_iff hr h.sent⟩⟩
  · rw [hdone] at heffect
    generalize (c.perform .revoke peer).2 = after at heffect ⊢
    cases heffect with
    | cleared => rfl
    | skipped h => rw [hr] at h; cases h
    | read h => exact h.elim
  · rw [he] at heffect
    generalize (c.perform .revoke peer).2 = after at heffect ⊢
    cases heffect with
    | unacknowledged => rfl
    | read h => exact h.elim

end

/-- A client with a token that can be revoked. -/
def revocableClient : Client where
  base := exampleClient.base
  strategy := .custom { name := "fixed", revocable := true, issue := fun _ => .ok "t" }
  token := "t"
  logins := 1

/-- A peer that repeats the revocation once at another URL. -/
def movingPeer : Http.Peer where
  script := [.reply { status := 307, location := some "/x" }, .reply { status := 204 }]

/-- The second answer makes the revocation succeed. -/
theorem forgotten_movingPeer : revocableClient.strategy.isRevocable = true ∧
    (revocableClient.perform .revoke movingPeer).1.result = .ok .done ∧
    (revocableClient.perform .revoke movingPeer).2 = { revocableClient with token := "" } := by
  have hr : revocableClient.strategy.isRevocable = true := rfl
  have hlength : (revocableClient.perform .revoke movingPeer).1.requests.length = 2 := by
    decide +kernel
  obtain ⟨hdone, hafter, -⟩ := forgotten_iff_answered hr movingPeer
  have haccepted := hdone.mpr
    ⟨1, _, List.getElem?_eq_getElem (by rw [hlength]; decide), _, rfl, rfl⟩
  exact ⟨hr, haccepted, hafter haccepted⟩

/-- A peer that sends the client on from the revocation, and has nothing to say there. -/
def redirectingPeer : Http.Peer where
  script := [.reply { status := 302, location := some "/x" }, .reply { status := 204 }]

/-- **A token is forgotten that no peer has revoked**: the request that revokes it is answered with a
redirect, and the answer 204 belongs to the page behind it. -/
theorem forgotten_redirectingPeer : revocableClient.strategy.isRevocable = true ∧
    (revocableClient.perform .revoke redirectingPeer).1.result = .ok .done ∧
    (revocableClient.perform .revoke redirectingPeer).2.token = "" ∧
    ¬ ∃ i q, revocableClient.AcceptedAt redirectingPeer i q ∧ revocableClient.IsRevocation q := by
  have hr : revocableClient.strategy.isRevocable = true := rfl
  have hlength : (revocableClient.perform .revoke redirectingPeer).1.requests.length = 2 := by
    decide +kernel
  have hdone := (revoke_done_iff_acceptedAt hr).mpr
    ⟨1, _, List.getElem?_eq_getElem (by rw [hlength]; decide), _, rfl, rfl⟩
  refine ⟨hr, hdone, by decide +kernel, ?_⟩
  rintro ⟨i, q, haccepted, hq⟩
  have hlast := haccepted.length_requests hr
  -- the answer to the first request is no 307 and no 308
  have hrepeated := ((isRevocation_iff hr haccepted.sent).mp hq).1 0 (by omega) _ rfl
  exact absurd hrepeated (by decide)

end SecretClient.Client
