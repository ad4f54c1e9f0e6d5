import SecretClient.Proofs.Client.Login

/-!
# What a revocation comes to

The attempt of a revocation, its events and requests included, and the client after it, by the final
reply of its chain of redirects.

* `revoke_eq_iff` : the rules by which a revocation comes to something (`RevokeOutcome`), all of them
* `revoke_outcome` : when a revocation succeeds, when it fails in which way, and what it tells. It warns
  exactly if it fails, and a revocation that fails leaves the client as it was
-/

namespace SecretClient.Client

open Http (TransportError headerHolds)

/-- What revocations come to: the attempt, and the client after it. -/
inductive RevokeOutcome (c : Client) (peer : Http.Peer) : Attempt Unit × Client → Prop
  /-- The tokens of the strategy cannot be revoked. -/
  | skipped : c.strategy.isRevocable = false → RevokeOutcome c peer
      ({ result := .ok (), events := [.revocationSkipped c.strategy.name], requests := [] }, c)
  /-- The final reply acknowledges the revocation. -/
  | revoked {reply : Http.Reply} : c.strategy.isRevocable = true →
      c.revokeOrder.FinalReply peer reply → reply.status = 204 →
      RevokeOutcome c peer
        ({ result := .ok (), events := [.revoked], requests := (c.revokeOrder.send peer).requests },
          { c with token := "" })
  /-- The final reply has another status. -/
  | refused {reply : Http.Reply} : c.strategy.isRevocable = true →
      c.revokeOrder.FinalReply peer reply → reply.status ≠ 204 →
      RevokeOutcome c peer
        ({ result := .error (.unexpectedStatus reply.status c.revokeOrder.url reply.errorText)
           events := [.revocationRefused reply.status c.revokeOrder.url]
           requests := (c.revokeOrder.send peer).requests }, c)
  /-- There is no final reply. -/
  | unsent {e : TransportError} : c.strategy.isRevocable = true →
      (c.revokeOrder.send peer).result = .error e →
      RevokeOutcome c peer
        ({ result := .error (.requestFailed c.revokeOrder.url e.message)
           events := [.revocationUnsent c.revokeOrder.url e.message]
           requests := (c.revokeOrder.send peer).requests }, c)

variable {c : Client} {peer : Http.Peer}

theorem revoke_of_not_revocable (hr : c.strategy.isRevocable = false) (peer : Http.Peer) :
    c.revoke peer =
      ({ result := .ok (), events := [.revocationSkipped c.strategy.name], requests := [] }, c) := by
  unfold revoke
  rw [hr, if_neg Bool.false_ne_true]

theorem revoke_of_unanswered (hr : c.strategy.isRevocable = true) {e : TransportError}
    (h : (c.revokeOrder.send peer).result = .error e) :
    c.revoke peer =
      ({ result := .error (.requestFailed c.revokeOrder.url e.message)
         events := [.revocationUnsent c.revokeOrder.url e.message]
         requests := (c.revokeOrder.send peer).requests }, c) := by
  unfold revoke
  rw [if_pos hr]
  dsimp only
  rw [h]

theorem revoke_of_final (hr : c.strategy.isRevocable = true) {reply : Http.Reply}
    (h : c.revokeOrder.FinalReply peer reply) :
    c.revoke peer =
      if reply.status = 204 then
        ({ result := .ok (), events := [.revoked], requests := (c.revokeOrder.send peer).requests },
          { c with token := "" })
      else
        ({ result := .error (.unexpectedStatus reply.status c.revokeOrder.url reply.errorText)
           events := [.revocationRefused reply.status c.revokeOrder.url]
           requests := (c.revokeOrder.send peer).requests }, c) := by
  unfold revoke
  rw [if_pos hr]
  dsimp only
  rw [Http.Order.send_result_eq_ok_iff.mpr h]

theorem revokeOutcome_revoke (c : Client) (peer : Http.Peer) :
    RevokeOutcome c peer (c.revoke peer) := by
  -- the cases are the checks, in the order in which the revocation makes them
  cases hr : c.strategy.isRevocable with
  | false =>
    rw [revoke_of_not_revocable hr]
    exact .skipped hr
  | true =>
    cases hsend : (c.revokeOrder.send peer).result with
    | error e =>
      rw [revoke_of_unanswered hr hsend]
      exact .unsent hr hsend
    | ok reply =>
      have hfinal := Http.Order.send_result_eq_ok_iff.mp hsend
      rw [revoke_of_final hr hfinal]
      split
      · next hstatus => exact .revoked hr hfinal hstatus
      · next hstatus => exact .refused hr hfinal hstatus

/-- **The rules say what a revocation comes to, and only that.** -/
theorem revoke_eq_iff {outcome : Attempt Unit × Client} :
    c.revoke peer = outcome ↔ RevokeOutcome c peer outcome := by
  refine ⟨fun h => h ▸ revokeOutcome_revoke c peer, fun h => ?_⟩
  cases h with
  | skipped hr => exact revoke_of_not_revocable hr peer
  | revoked hr hfinal hstatus => rw [revoke_of_final hr hfinal, if_pos hstatus]
  | refused hr hfinal hstatus => rw [revoke_of_final hr hfinal, if_neg hstatus]
  | unsent hr hsend => exact revoke_of_unanswered hr hsend

/-! ## Which outcomes there are -/

/-- What a revocation tells goes by its result: a failure is a warning, and the only one. -/
theorem revoke_events (c : Client) (peer : Http.Peer) :
    ∃ e, (c.revoke peer).1.events = [e] ∧
      (e.level = .debug ↔ (c.revoke peer).1.result = .ok ()) ∧
      (e.level = .warn ↔ ∃ f, (c.revoke peer).1.result = .error f) := by
  have houtcome := revokeOutcome_revoke c peer
  generalize c.revoke peer = outcome at houtcome ⊢
  cases houtcome <;> exact ⟨_, rfl, by simp [Event.level]⟩

/-- A failure names the URL of the revocation, is told with all that it says of the reply, and changes
nothing. -/
theorem revoke_error {f : Failure} (h : (c.revoke peer).1.result = .error f) :
    (c.revoke peer).2 = c ∧
      ((∃ status body, f = .unexpectedStatus status c.revokeOrder.url body ∧
          (c.revoke peer).1.events = [.revocationRefused status c.revokeOrder.url]) ∨
        ∃ message, f = .requestFailed c.revokeOrder.url message ∧
          (c.revoke peer).1.events = [.revocationUnsent c.revokeOrder.url message]) := by
  have houtcome := revokeOutcome_revoke c peer
  generalize c.revoke peer = outcome at houtcome h ⊢
  cases houtcome with
  | skipped | revoked => cases h
  | refused =>
    cases h
    exact ⟨rfl, Or.inl ⟨_, _, rfl, rfl⟩⟩
  | unsent =>
    cases h
    exact ⟨rfl, Or.inr ⟨_, rfl, rfl⟩⟩

section

variable (hr : c.strategy.isRevocable = true)
include hr

/-- A token is revoked exactly if the final reply has the status 204. -/
theorem revoke_ok_iff : (c.revoke peer).1.result = .ok () ↔
    ∃ reply, c.revokeOrder.FinalReply peer reply ∧ reply.status = 204 := by
  constructor
  · intro h
    have houtcome := revokeOutcome_revoke c peer
    generalize c.revoke peer = outcome at houtcome h
    cases houtcome with
    | skipped hnot => rw [hr] at hnot; cases hnot
    | revoked _ hfinal hstatus => exact ⟨_, hfinal, hstatus⟩
    | refused | unsent => cases h
  · rintro ⟨reply, hfinal, hstatus⟩
    rw [revoke_eq_iff.mpr (.revoked hr hfinal hstatus)]

/-- A token that is revoked is forgotten. -/
theorem revoke_of_ok (h : (c.revoke peer).1.result = .ok ()) :
    (c.revoke peer).2 = { c with token := "" } ∧ (c.revoke peer).1.events = [.revoked] := by
  obtain ⟨reply, hfinal, hstatus⟩ := (revoke_ok_iff hr).mp h
  rw [revoke_eq_iff.mpr (.revoked hr hfinal hstatus)]
  exact ⟨rfl, rfl⟩

/-- A status is unexpected exactly if it is that of the final reply and is not 204. -/
theorem revoke_unexpectedStatus_iff {status : Nat} {url body : String} :
    (c.revoke peer).1.result = .error (.unexpectedStatus status url body) ↔
      url = c.revokeOrder.url ∧ status ≠ 204 ∧
      ∃ reply, c.revokeOrder.FinalReply peer reply ∧ reply.status = status ∧
        ((∃ bytes, reply.body = .complete bytes ∧ body = bodyText bytes) ∨
          reply.body = .cut ∧ body = "") := by
  simp only [← AppId.errorText_eq_iff]
  constructor
  · intro h
    have houtcome := revokeOutcome_revoke c peer
    generalize c.revoke peer = outcome at houtcome h
    cases houtcome with
    | refused _ hfinal hstatus =>
      cases h
      exact ⟨rfl, hstatus, _, hfinal, rfl, rfl⟩
    | skipped | revoked | unsent => cases h
  · rintro ⟨rfl, hstatus, reply, hfinal, rfl, rfl⟩
    rw [revoke_eq_iff.mpr (.refused hr hfinal hstatus)]

/-- A revocation fails for want of a reply exactly if the transport does, and says why. -/
theorem revoke_requestFailed_iff {url message : String} :
    (c.revoke peer).1.result = .error (.requestFailed url message) ↔
      url = c.revokeOrder.url ∧
      ∃ e, (c.revokeOrder.send peer).result = .error e ∧ message = e.message := by
  constructor
  · intro h
    have houtcome := revokeOutcome_revoke c peer
    generalize c.revoke peer = outcome at houtcome h
    cases houtcome with
    | unsent _ hsend =>
      cases h
      exact ⟨rfl, _, hsend, rfl⟩
    | skipped | revoked | refused => cases h
  · rintro ⟨rfl, e, hsend, rfl⟩
    rw [revoke_eq_iff.mpr (.unsent hr hsend)]

/-- This happens exactly if there is no final reply. -/
theorem revoke_unanswered_iff :
    (∃ message, (c.revoke peer).1.result = .error (.requestFailed c.revokeOrder.url message)) ↔
      ∀ reply, ¬ c.revokeOrder.FinalReply peer reply := by
  simp only [revoke_requestFailed_iff hr, ← Http.Order.send_result_eq_ok_iff]
  cases (c.revokeOrder.send peer).result <;> simp

/-- A token that no header can hold is not sent. -/
theorem revoke_of_not_held (h : headerHolds c.token = false) (peer : Http.Peer) :
    (c.revoke peer).1.requests = [] ∧
      ∃ message, (c.revoke peer).1.result = .error (.requestFailed c.revokeOrder.url message) := by
  obtain ⟨e, he⟩ := Http.Order.send_of_not_held (o := c.revokeOrder) rfl h peer
  have hcarries : (c.revoke peer).1.Carries c.revokeOrder peer := carries_revoke hr
  exact ⟨by rw [hcarries.requests, he], e.message, hcarries.unanswered e (by rw [he])⟩

end

/-- **The complete outcome of a revocation.** A token that cannot be revoked is passed over. Any other
is revoked exactly if the final reply has the status 204; another status and no reply at all are
failures, which leave the client as it was. One event tells of it, and it is a warning exactly if the
revocation failed. -/
theorem revoke_outcome (c : Client) (peer : Http.Peer) :
    (c.strategy.isRevocable = false → c.revoke peer =
      ({ result := .ok (), events := [.revocationSkipped c.strategy.name], requests := [] }, c)) ∧
    (c.strategy.isRevocable = true →
      ((c.revoke peer).1.result = .ok () ↔
        ∃ reply, c.revokeOrder.FinalReply peer reply ∧ reply.status = 204) ∧
      ((c.revoke peer).1.result = .ok () →
        (c.revoke peer).2 = { c with token := "" } ∧ (c.revoke peer).1.events = [.revoked]) ∧
      (∀ status url body, (c.revoke peer).1.result = .error (.unexpectedStatus status url body) ↔
        url = c.endpoint "/v1/auth/token/revoke-self" ∧ status ≠ 204 ∧
        ∃ reply, c.revokeOrder.FinalReply peer reply ∧ reply.status = status ∧
          ((∃ bytes, reply.body = .complete bytes ∧ body = bodyText bytes) ∨
            reply.body = .cut ∧ body = "")) ∧
      (∀ url message, (c.revoke peer).1.result = .error (.requestFailed url message) ↔
        url = c.endpoint "/v1/auth/token/revoke-self" ∧
        ∃ e, (c.revokeOrder.send peer).result = .error e ∧ message = e.message) ∧
      ((∃ message, (c.revoke peer).1.result
        = .error (.requestFailed (c.endpoint "/v1/auth/token/revoke-self") message)) ↔
        ∀ reply, ¬ c.revokeOrder.FinalReply peer reply) ∧
      (headerHolds c.token = false →
        (c.revoke peer).1.requests = [] ∧ ∃ message, (c.revoke peer).1.result
          = .error (.requestFailed (c.endpoint "/v1/auth/token/revoke-self") message))) ∧
    (∀ f, (c.revoke peer).1.result = .error f →
      (c.revoke peer).2 = c ∧
      ((∃ status body,
          f = .unexpectedStatus status (c.endpoint "/v1/auth/token/revoke-self") body ∧
          (c.revoke peer).1.events
            = [.revocationRefused status (c.endpoint "/v1/auth/token/revoke-self")]) ∨
        ∃ message, f = .requestFailed (c.endpoint "/v1/auth/token/revoke-self") message ∧
          (c.revoke peer).1.events
            = [.revocationUnsent (c.endpoint "/v1/auth/token/revoke-self") message])) ∧
    ∃ e, (c.revoke peer).1.events = [e] ∧
      (e.level = .debug ↔ (c.revoke peer).1.result = .ok ()) ∧
      (e.level = .warn ↔ ∃ f, (c.revoke peer).1.result = .error f) := by
  refine ⟨fun hr => revoke_of_not_revocable hr peer, fun hr => ?_, fun f => revoke_error,
    revoke_events c peer⟩
  refine ⟨revoke_ok_iff hr, revoke_of_ok hr, ?_, ?_, revoke_unanswered_iff hr, ?_⟩
  · intro status url body
    exact revoke_unexpectedStatus_iff hr
  · intro url message
    exact revoke_requestFailed_iff hr
  · intro hheld
    exact revoke_of_not_held hr hheld peer

end SecretClient.Client
