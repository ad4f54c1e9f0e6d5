import SecretClient.Http.Exchange

/-!
# Chains of redirects

Which reply a chain of redirects ends in, said without the requests on the way, and what all requests
of a chain have in common.

* `Order.send_result_eq_ok_iff` : an order comes back with a reply exactly if its chain of redirects
  ends in that reply
* `Order.send_token` : every request of a chain carries the token of its order
* `Order.send_of_not_held`, `Order.send_of_not_http` : which orders are never sent
-/

namespace SecretClient.Http

/-! ## The final reply -/

/-- The chain of redirects that begins with a request ends in a reply, when at most `left` redirects
are followed. Each request of the chain arrives and is answered, and each answer but the last sends
the client on to a URL to which a request can be sent. -/
inductive Concludes : Nat → Request → Peer → Reply → Prop
  | final {left : Nat} {r : Request} {peer : Peer} {reply : Reply} :
      peer.sees r.target = true → peer.next.1 = .reply reply → reply.target? r.target = none →
      Concludes left r peer reply
  | redirected {left : Nat} {r : Request} {peer : Peer} {hop reply : Reply} {target : Url} :
      peer.sees r.target = true → peer.next.1 = .reply hop →
      hop.target? r.target = some target → target.isHttp = true →
      Concludes left (r.redirected hop.status target) peer.next.2 reply →
      Concludes (left + 1) r peer reply

/-- The chain of redirects of an order ends in a reply. -/
def Order.FinalReply (o : Order) (peer : Peer) (reply : Reply) : Prop :=
  ∃ r, o.request = .ok r ∧ Concludes maxRedirects r peer reply

theorem sendFrom_of_concludes {first : Url} {left : Nat} {r : Request} {peer : Peer}
    {reply : Reply} (h : Concludes left r peer reply) :
    (sendFrom first left r peer).result = .ok reply := by
  induction h with
  | final hsees hnext htarget =>
    rw [sendFrom, if_pos hsees]
    split
    · next heq => rw [heq] at hnext; cases hnext
    · next heq =>
      rw [heq] at hnext
      cases hnext
      rw [htarget]
  | redirected hsees hnext htarget hhttp _ ih =>
    rw [sendFrom, if_pos hsees]
    split
    · next heq => rw [heq] at hnext; cases hnext
    · next heq =>
      rw [heq] at hnext ih
      cases hnext
      rw [htarget]
      simp only [hhttp, if_true]
      exact ih

theorem concludes_of_sendFrom {first : Url} {left : Nat} {r : Request} {peer : Peer}
    {reply : Reply} (h : (sendFrom first left r peer).result = .ok reply) :
    Concludes left r peer reply := by
  -- a reply comes back from two branches only: it is final (`case2`), or a redirect is followed and
  -- the rest of the chain gives it (`case4`)
  fun_induction sendFrom first left r peer with
  | case1 => cases h
  | case2 left r peer hsees got _ heq htarget =>
    cases h
    exact .final hsees (by rw [heq]) htarget
  | case3 => cases h
  | case4 r peer hsees got peer' heq target htarget left hhttp rest ih =>
    refine .redirected hsees (by rw [heq]) htarget hhttp ?_
    rw [heq]
    exact ih h
  | case5 => cases h
  | case6 => cases h

/-- **An order comes back with a reply exactly if its chain of redirects ends in it.** -/
theorem Order.send_result_eq_ok_iff {o : Order} {peer : Peer} {reply : Reply} :
    (o.send peer).result = .ok reply ↔ o.FinalReply peer reply := by
  unfold Order.send Order.FinalReply
  cases h : o.request with
  | error e => simp
  | ok r =>
    simp only [Except.ok.injEq, exists_eq_left']
    exact ⟨concludes_of_sendFrom, sendFrom_of_concludes⟩

/-- A chain ends in one reply only. -/
theorem Order.FinalReply.unique {o : Order} {peer : Peer} {reply reply' : Reply}
    (h : o.FinalReply peer reply) (h' : o.FinalReply peer reply') : reply = reply' := by
  rw [← Order.send_result_eq_ok_iff] at h h'
  exact Except.ok.inj (h.symm.trans h')

/-! ## What all requests of a chain have in common -/

/-- What a request has and redirects keep, every request of its chain has. -/
theorem sendFrom_requests {first : Url} {left : Nat} {r : Request} {peer : Peer}
    {P : Request → Prop} (hkeep : ∀ r status target, P r → P (r.redirected status target))
    (h : P r) : ∀ q ∈ (sendFrom first left r peer).requests, P q := by
  fun_induction sendFrom first left r peer with
  | case1 | case2 | case3 | case5 =>
    intro q hq
    rw [List.mem_singleton] at hq
    exact hq ▸ h
  | case4 r peer _ got _ _ target _ left _ rest ih =>
    intro q hq
    rcases List.mem_cons.mp hq with rfl | hq
    · exact h
    · exact ih (hkeep _ _ _ h) q hq
  | case6 =>
    intro q hq
    exact absurd hq List.not_mem_nil

/-! ## Making the request of an order -/

/-- What is known of an order whose request can be made: its URL can be read and has one of the two
schemes, and the request carries the token of the order, which a header can hold. -/
theorem Order.request_ok {o : Order} {r : Request} (h : o.request = .ok r) :
    r.token = o.token ∧ (∀ t, o.token = some t → headerHolds t = true) ∧
      ∃ u, Url.parse o.url = .ok u ∧ u.isHttp = true := by
  unfold Order.request at h
  split at h
  · cases h
  · next u hu =>
    split at h
    · cases h
    · dsimp only at h
      -- taking the user information off touches neither the scheme nor the checks that follow
      have hscheme : (if (credentials? u).isSome then u.withoutUserinfo else u).isHttp
          = u.isHttp := by split <;> rfl
      generalize (if (credentials? u).isSome then u.withoutUserinfo else u) = target
        at h hscheme
      split at h
      · cases h
      · next hheld =>
        split at h
        · cases h
        · next hnamed =>
          cases h
          refine ⟨rfl, fun t ht => ?_, u, hu, ?_⟩
          · rw [ht] at hheld
            simpa using hheld
          · rw [← hscheme]
            simp only [Bool.or_eq_true, Bool.not_eq_true', not_or, Bool.not_eq_false] at hnamed
            exact hnamed.1

theorem Order.send_of_request_error {o : Order} {e : TransportError} (h : o.request = .error e)
    (peer : Peer) : o.send peer = ⟨[], .error e⟩ := by
  unfold Order.send
  rw [h]

/-- **Every request of a chain carries the token of its order.** -/
theorem Order.send_token {o : Order} {peer : Peer} :
    ∀ q ∈ (o.send peer).requests, q.token = o.token := by
  unfold Order.send
  cases h : o.request with
  | error e => intro q hq; exact absurd hq List.not_mem_nil
  | ok r => exact sendFrom_requests (fun _ _ _ h => h) (Order.request_ok h).1

/-- A token that no header can hold is never sent. -/
theorem Order.send_of_not_held {o : Order} {t : String} (ht : o.token = some t)
    (h : headerHolds t = false) (peer : Peer) : ∃ e, o.send peer = ⟨[], .error e⟩ := by
  cases hr : o.request with
  | error e => exact ⟨e, Order.send_of_request_error hr peer⟩
  | ok r =>
    have hheld := (Order.request_ok hr).2.1 t ht
    rw [h] at hheld
    cases hheld

/-- Nothing is sent to a URL with another scheme. -/
theorem Order.send_of_not_http {o : Order} (h : ∀ u, Url.parse o.url = .ok u → u.isHttp = false)
    (peer : Peer) : ∃ e, o.send peer = ⟨[], .error e⟩ := by
  cases hr : o.request with
  | error e => exact ⟨e, Order.send_of_request_error hr peer⟩
  | ok r =>
    obtain ⟨u, hu, hhttp⟩ := (Order.request_ok hr).2.2
    rw [h u hu] at hhttp
    cases hhttp

end SecretClient.Http
