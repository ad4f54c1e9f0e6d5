import SecretClient.Proofs.Http.Chain

/-!
# The requests of a chain

How the requests of an order follow from each other. A peer answers request after request in the order
of its script, so the request with the index `i` gets the answer with the index `i`.

* `Order.length_requests_le` : an order sends eleven requests at most
* `Order.followed` : each request but the first is what a redirect made of the one before
* `Order.send_ok_iff` : the final reply is the answer to a request that sends the client nowhere
* `Order.method_get_of_le` : a request that is made with GET is never made with POST again
* `Order.method_post_iff` : a request is made with POST as long as redirects repeat it
* `Order.send_of_redirect` : the redirect that is one too many ends the exchange
-/

namespace SecretClient.Http

/-! ## Answers -/

theorem next_of_getElem? {peer : Peer} {answer : Answer} (h : peer.script[0]? = some answer) :
    peer.next.1 = answer := by
  unfold Peer.next
  cases hscript : peer.script with
  | nil => rw [hscript] at h; cases h
  | cons first rest =>
    rw [hscript] at h
    exact Option.some.inj h

theorem next_eq_reply {peer peer' : Peer} {reply : Reply} (h : peer.next = (.reply reply, peer')) :
    peer.script = .reply reply :: peer'.script := by
  unfold Peer.next at h
  cases hscript : peer.script with
  | nil => rw [hscript] at h; cases h
  | cons answer rest =>
    rw [hscript] at h
    cases h
    rfl

theorem target?_eq_some_iff {reply : Reply} {asked u : Url} :
    reply.target? asked = some u ↔ isRedirect reply.status = true ∧
      ∃ location, reply.location = some location ∧ Url.join asked location = .ok u ∧
        canName u = true := by
  unfold Reply.target?
  by_cases hredirect : isRedirect reply.status = true
  · rw [if_pos hredirect]
    cases hlocation : reply.location with
    | none => simp
    | some location =>
      cases hjoin : Url.join asked location with
      | error e => simp [hjoin]
      | ok v =>
        have hnamed : (if canName v = true then some v else none) = some u ↔
            v = u ∧ canName u = true := by
          rw [Option.ite_none_right_eq_some, Option.some.injEq]
          constructor
          · rintro ⟨hname, rfl⟩
            exact ⟨rfl, hname⟩
          · rintro ⟨rfl, hname⟩
            exact ⟨hname, rfl⟩
        simpa [hjoin, hredirect] using hnamed
  · simp [hredirect]

/-- The answer sends the client on, and the second request is what it makes of the first. -/
def Answer.Redirects (answer : Answer) (q q' : Request) : Prop :=
  ∃ reply u, answer = .reply reply ∧ reply.target? q.target = some u ∧ u.isHttp = true ∧
    q' = q.redirected reply.status u

/-! ## One request after the other -/

section

variable {first : Url} {left : Nat} {r : Request} {peer : Peer}

theorem length_sendFrom_le : (sendFrom first left r peer).requests.length ≤ left + 1 := by
  fun_induction sendFrom first left r peer with
  | case1 | case2 | case3 | case5 | case6 => simp
  | case4 r peer hsees reply peer' hnext u htarget left hhttp rest ih => exact Nat.succ_le_succ ih

theorem head?_sendFrom {q : Request} (h : (sendFrom first left r peer).requests[0]? = some q) :
    q = r := by
  fun_induction sendFrom first left r peer with
  | case1 | case2 | case3 | case4 | case5 => exact (Option.some.inj h).symm
  | case6 => cases h

/-- **Each request but the first is what a redirect made of the one before.** -/
theorem redirects_sendFrom : ∀ (i : Nat) (q q' : Request),
    (sendFrom first left r peer).requests[i]? = some q →
    (sendFrom first left r peer).requests[i + 1]? = some q' →
    ∃ answer, peer.script[i]? = some answer ∧ answer.Redirects q q' := by
  fun_induction sendFrom first left r peer with
  | case1 | case2 | case3 | case5 =>
    intro i q q' h h'
    cases h'
  | case6 =>
    intro i q q' h h'
    cases h
  | case4 r peer hsees reply peer' hnext u htarget left hhttp rest ih =>
    intro i q q' h h'
    rw [next_eq_reply hnext]
    cases i with
    | zero =>
      cases h
      cases head?_sendFrom h'
      exact ⟨_, rfl, reply, u, rfl, htarget, hhttp, rfl⟩
    | succ i => exact ih i q q' h h'

/-- **A redirect behind as many as are followed ends the exchange.** -/
theorem result_sendFrom_of_redirect {q : Request} {reply : Reply} {u : Url}
    (h : (sendFrom first left r peer).requests[left]? = some q)
    (hanswer : peer.script[left]? = some (.reply reply)) (htarget : reply.target? q.target = some u) :
    (sendFrom first left r peer).result = .error (.redirect q.target.text) := by
  -- an exchange that ends early has no request with this index: so many redirects are followed
  fun_induction sendFrom first left r peer with
  | case1 left r peer hsees peer' hnext =>
    cases left with
    | succ left => cases h
    | zero =>
      have hfirst := next_of_getElem? hanswer
      rw [hnext] at hfirst
      cases hfirst
  | case2 left r peer hsees got peer' hnext hnone =>
    cases left with
    | succ left => cases h
    | zero =>
      have hfirst := next_of_getElem? hanswer
      rw [hnext] at hfirst
      cases hfirst
      cases h
      rw [hnone] at htarget
      cases htarget
  | case3 =>
    cases h
    rfl
  | case5 | case6 => cases h
  | case4 r peer hsees got peer' hnext v hv left hhttp rest ih =>
    rw [next_eq_reply hnext] at hanswer
    exact ih h hanswer

/-- **The reply of an exchange is the answer to a request that sends the client nowhere.** -/
theorem sendFrom_ok_iff {reply : Reply} : (sendFrom first left r peer).result = .ok reply ↔
    ∃ (i : Nat) (q : Request), (sendFrom first left r peer).requests[i]? = some q ∧
      peer.script[i]? = some (.reply reply) ∧ reply.target? q.target = none := by
  -- a request behind the only one is not there, and the answer to the only one is what comes next
  have honly : ∀ {r q : Request} {i : Nat}, [r][i]? = some q → i = 0 ∧ r = q := by
    intro r q i h
    rw [List.getElem?_singleton, Option.ite_none_right_eq_some, Option.some.injEq] at h
    exact h
  fun_induction sendFrom first left r peer with
  | case1 left r peer hsees peer' hnext =>
    refine iff_of_false (fun h => by cases h) ?_
    rintro ⟨i, q, h, hanswer, -⟩
    obtain ⟨rfl, -⟩ := honly h
    have hfirst := next_of_getElem? hanswer
    rw [hnext] at hfirst
    cases hfirst
  | case2 left r peer hsees got peer' hnext hnone =>
    rw [next_eq_reply hnext]
    constructor
    · intro h
      cases h
      exact ⟨0, r, rfl, rfl, hnone⟩
    · rintro ⟨i, q, h, hanswer, -⟩
      obtain ⟨rfl, -⟩ := honly h
      cases hanswer
      rfl
  | case3 r peer hsees got peer' hnext u hu | case5 r peer hsees got peer' hnext u hu =>
    rw [next_eq_reply hnext]
    refine iff_of_false (fun h => by cases h) ?_
    rintro ⟨i, q, h, hanswer, hnone⟩
    obtain ⟨rfl, rfl⟩ := honly h
    cases hanswer
    rw [hu] at hnone
    cases hnone
  | case4 r peer hsees got peer' hnext u hu left hhttp rest ih =>
    rw [next_eq_reply hnext]
    refine ih.trans ⟨?_, ?_⟩
    · rintro ⟨i, q, h⟩
      exact ⟨i + 1, q, h⟩
    · rintro ⟨i, q, h, hanswer, hnone⟩
      cases i with
      | succ i => exact ⟨i, q, h, hanswer, hnone⟩
      | zero =>
        -- the first answer sends the client on
        cases h
        cases hanswer
        rw [hu] at hnone
        cases hnone
  | case6 =>
    refine iff_of_false (fun h => by cases h) ?_
    rintro ⟨i, q, h, -⟩
    cases h

end

/-! ## The requests of an order -/

namespace Order

variable {o : Order} {peer : Peer}

/-- The request of an order has all that the order says, and goes to the URL that it names. -/
theorem request_eq {r : Request} (h : o.request = .ok r) :
    ∃ u, Url.parse o.url = .ok u ∧
      r.target = (if (credentials? u).isSome then u.withoutUserinfo else u) ∧
      r.method = o.method ∧ r.body = o.body := by
  unfold Order.request at h
  split at h
  · cases h
  · next u hu =>
    split at h
    · cases h
    · dsimp only at h
      generalize htarget : (if (credentials? u).isSome then u.withoutUserinfo else u) = target at h
      split at h
      · cases h
      · split at h
        · cases h
        · cases h
          exact ⟨u, hu, htarget.symm, rfl, rfl⟩

/-- The requests of an order follow from its own, if that can be made. -/
theorem send_eq (o : Order) (peer : Peer) : (o.send peer).requests = [] ∨
    ∃ r, o.request = .ok r ∧ o.send peer = sendFrom r.target maxRedirects r peer := by
  unfold Order.send
  cases h : o.request with
  | error e => exact Or.inl rfl
  | ok r => exact Or.inr ⟨r, rfl, rfl⟩

/-- An order sends eleven requests at most. -/
theorem length_requests_le : (o.send peer).requests.length ≤ 11 := by
  rcases o.send_eq peer with hnone | ⟨r, -, hsend⟩
  · rw [hnone]
    exact Nat.zero_le 11
  · rw [hsend]
    exact length_sendFrom_le

/-- The first request is that of the order. -/
theorem request_of_first {q : Request} (h : (o.send peer).requests[0]? = some q) :
    o.request = .ok q := by
  rcases o.send_eq peer with hnone | ⟨r, hr, hsend⟩
  · rw [hnone] at h
    cases h
  · rw [hsend] at h
    rw [hr, head?_sendFrom h]

/-- **Each request but the first is what a redirect made of the one before.** -/
theorem followed {i : Nat} {q q' : Request} (h : (o.send peer).requests[i]? = some q)
    (h' : (o.send peer).requests[i + 1]? = some q') :
    ∃ answer, peer.script[i]? = some answer ∧ answer.Redirects q q' := by
  rcases o.send_eq peer with hnone | ⟨r, -, hsend⟩
  · rw [hnone] at h
    cases h
  · rw [hsend] at h h'
    exact redirects_sendFrom i q q' h h'

/-- **The redirect that is one too many ends the exchange.** -/
theorem send_of_redirect {q : Request} {reply : Reply} {u : Url}
    (h : (o.send peer).requests[10]? = some q) (hanswer : peer.script[10]? = some (.reply reply))
    (htarget : reply.target? q.target = some u) :
    (o.send peer).result = .error (.redirect q.target.text) := by
  rcases o.send_eq peer with hnone | ⟨r, -, hsend⟩
  · rw [hnone] at h
    cases h
  · rw [hsend] at h ⊢
    exact result_sendFrom_of_redirect h hanswer htarget

/-- **The final reply is the answer to a request that sends the client nowhere.** -/
theorem send_ok_iff {reply : Reply} : (o.send peer).result = .ok reply ↔
    ∃ (i : Nat) (q : Request), (o.send peer).requests[i]? = some q ∧
      peer.script[i]? = some (.reply reply) ∧ reply.target? q.target = none := by
  unfold send
  cases o.request with
  | error e => simp
  | ok r => exact sendFrom_ok_iff

/-- A request is as the order has it, or asks with GET and without a body. -/
theorem method_and_body : ∀ q ∈ (o.send peer).requests,
    (q.method = o.method ∧ q.body = o.body) ∨ (q.method = .get ∧ q.body = none) := by
  rcases o.send_eq peer with hnone | ⟨r, hr, hsend⟩
  · rw [hnone]
    intro q hq
    cases hq
  · rw [hsend]
    obtain ⟨u, -, -, hmethod, hbody⟩ := request_eq hr
    refine sendFrom_requests (fun q status target hq => ?_) (Or.inl ⟨hmethod, hbody⟩)
    by_cases hrepeated : status = 307 ∨ status = 308
    · simpa [Request.redirected, hrepeated] using hq
    · simp [Request.redirected, hrepeated]

/-- **A request that is made with GET is never made with POST again.** -/
theorem method_get_of_le {i j : Nat} {q q' : Request} (h : (o.send peer).requests[i]? = some q)
    (hget : q.method = .get) (hij : i ≤ j) (h' : (o.send peer).requests[j]? = some q') :
    q'.method = .get := by
  induction hij generalizing q' with
  | refl =>
    cases h.symm.trans h'
    exact hget
  | @step j _ ih =>
    obtain ⟨last, hlast⟩ : ∃ last, (o.send peer).requests[j]? = some last := by
      have hlt := (List.getElem?_eq_some_iff.mp h').1
      exact ⟨_, List.getElem?_eq_getElem (by omega)⟩
    obtain ⟨answer, -, reply, u, -, -, -, rfl⟩ := followed hlast h'
    simp [Request.redirected, ih hlast]

/-- What a redirect makes of a request asks with GET, unless it repeats the request. -/
theorem method_of_redirect {i j : Nat} {reply : Reply} {q : Request}
    (hanswer : peer.script[i]? = some (.reply reply)) (hstatus : reply.status ∉ [307, 308])
    (hij : i < j) (h : (o.send peer).requests[j]? = some q) : q.method = .get := by
  have hlt := (List.getElem?_eq_some_iff.mp h).1
  have hasked : (o.send peer).requests[i]? = some _ := List.getElem?_eq_getElem (by omega)
  have hnext : (o.send peer).requests[i + 1]? = some _ := List.getElem?_eq_getElem (by omega)
  obtain ⟨answer, hanswer', reply', u, rfl, -, -, heq⟩ := followed hasked hnext
  cases hanswer.symm.trans hanswer'
  refine method_get_of_le hnext ?_ hij h
  rw [heq]
  simp only [List.mem_cons, List.not_mem_nil, or_false] at hstatus
  simp [Request.redirected, hstatus]

/-- **A request is made with POST exactly as long as redirects repeat it.** -/
theorem method_post_iff (hpost : o.method = .post) {i : Nat} {q : Request}
    (h : (o.send peer).requests[i]? = some q) :
    q.method = .post ↔
      ∀ j < i, ∀ reply, peer.script[j]? = some (.reply reply) → reply.status ∈ [307, 308] := by
  constructor
  · intro hq j hj reply hanswer
    refine Decidable.byContradiction fun hstatus => ?_
    rw [method_of_redirect hanswer hstatus hj h] at hq
    cases hq
  · intro hrepeated
    induction i generalizing q with
    | zero =>
      obtain ⟨u, -, -, hmethod, -⟩ := request_eq (request_of_first h)
      rw [hmethod, hpost]
    | succ i ih =>
      have hlt := (List.getElem?_eq_some_iff.mp h).1
      have hlast : (o.send peer).requests[i]? = some _ := List.getElem?_eq_getElem (by omega)
      have hmethod := ih hlast fun j hj => hrepeated j (by omega)
      obtain ⟨answer, hanswer, reply, u, rfl, -, -, rfl⟩ := followed hlast h
      have hstatus := hrepeated i (by omega) reply hanswer
      simp only [List.mem_cons, List.not_mem_nil, or_false] at hstatus
      simp [Request.redirected, hstatus, hmethod]

end Order

end SecretClient.Http
