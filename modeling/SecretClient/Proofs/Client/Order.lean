import SecretClient.Proofs.Client.Run

/-!
# The order of an operation

An operation asks the peer by one order at most (`Client.order?`). What it sends is what the order
sends, and it fails if no reply comes back (`Attempt.Carries`).

* `carries_perform` : an operation with an order carries it out
* `order?_eq_some` : which orders there are
* `perform_requests` : what the operations other than a login send
-/

namespace SecretClient

/-- The attempt sends what the order sends, and fails if no reply comes back. -/
structure Attempt.Carries {α : Type} (attempt : Attempt α) (o : Http.Order) (peer : Http.Peer) :
    Prop where
  requests : attempt.requests = (o.send peer).requests
  unanswered : ∀ e, (o.send peer).result = .error e →
    attempt.result = .error (.requestFailed o.url e.message)

theorem Attempt.Carries.map {α β : Type} {attempt : Attempt α} {o : Http.Order} {peer : Http.Peer}
    (h : attempt.Carries o peer) (f : α → β) : (attempt.map f).Carries o peer where
  requests := h.requests
  unanswered := by
    intro e he
    rw [Attempt.map, h.unanswered e he]
    rfl

namespace Client

/-- The order that an operation carries out, if it asks the peer at all. -/
def order? (c : Client) : Operation → Option Http.Order
  | .login =>
    match c.strategy with
    | .appId a => some (a.loginOrder c.base)
    | _ => none
  | .read path | .readValue path | .readAs _ path => some (c.readOrder path)
  | .revoke => if c.strategy.isRevocable then some c.revokeOrder else none

variable {c : Client} {peer : Http.Peer}

theorem carries_read (c : Client) (path : String) (peer : Http.Peer) :
    (c.read path peer).Carries (c.readOrder path) peer := by
  refine ⟨by simp only [read], fun e he => ?_⟩
  unfold read
  dsimp only
  rw [he]

theorem carries_readAs {α : Type} (c : Client) (reader : Json.Reader α) (path : String)
    (peer : Http.Peer) : (c.readAs reader path peer).Carries (c.readOrder path) peer := by
  obtain ⟨hrequests, hunanswered⟩ := carries_read c path peer
  refine ⟨by simp only [readAs, hrequests], fun e he => ?_⟩
  unfold readAs
  dsimp only
  rw [hunanswered e he]

theorem carries_appId (a : AppId) (base : Url) (peer : Http.Peer) :
    (a.login base peer).Carries (a.loginOrder base) peer := by
  refine ⟨by simp only [AppId.login], fun e he => ?_⟩
  unfold AppId.login
  dsimp only
  rw [he]

/-- A login carries out what its strategy does. -/
theorem carries_login {o : Http.Order}
    (h : (c.strategy.token c.logins c.base peer).Carries o peer) :
    (c.login peer).1.Carries o peer := by
  obtain ⟨hrequests, hunanswered⟩ := h
  unfold login
  generalize c.strategy.token c.logins c.base peer = attempt at hrequests hunanswered ⊢
  obtain ⟨result, events, requests⟩ := attempt
  cases result with
  | error f =>
    refine ⟨hrequests, fun e he => ?_⟩
    cases hunanswered e he
    rfl
  | ok token =>
    refine ⟨hrequests, fun e he => ?_⟩
    cases hunanswered e he

theorem carries_revoke (hr : c.strategy.isRevocable = true) :
    (c.revoke peer).1.Carries c.revokeOrder peer := by
  unfold revoke
  rw [if_pos hr]
  dsimp only
  cases hsend : (c.revokeOrder.send peer).result with
  | error e =>
    refine ⟨by simp only, fun e' he => ?_⟩
    cases hsend.symm.trans he
    rfl
  | ok reply =>
    refine ⟨?_, fun e he => ?_⟩
    · dsimp only
      split <;> simp only
    · cases hsend.symm.trans he

/-- An operation with an order carries it out. -/
theorem carries_perform {operation : Operation} {o : Http.Order}
    (h : c.order? operation = some o) : (c.perform operation peer).1.Carries o peer := by
  cases operation with
  | read path =>
    cases h
    exact (carries_read c path peer).map _
  | readValue path =>
    cases h
    exact (carries_readAs c secretReader path peer).map _
  | readAs shape path =>
    cases h
    exact (carries_readAs c shape.reader path peer).map _
  | login =>
    unfold order? at h
    dsimp only at h
    split at h
    · next a ha =>
      rw [← Option.some.inj h, perform_login]
      have htoken : (c.strategy.token c.logins c.base peer).Carries (a.loginOrder c.base) peer := by
        rw [ha]
        exact carries_appId a c.base peer
      exact (carries_login htoken).map _
    · cases h
  | revoke =>
    obtain ⟨hr, heq⟩ := Option.ite_none_right_eq_some.mp h
    rw [← Option.some.inj heq, perform_revoke]
    exact (carries_revoke hr).map _

/-- An operation without an order sends nothing. -/
theorem requests_of_order?_none {operation : Operation} (h : c.order? operation = none) :
    (c.perform operation peer).1.requests = [] := by
  cases operation with
  | read | readValue | readAs => cases h
  | login =>
    rw [login_requests]
    unfold order? at h
    dsimp only at h
    cases hs : c.strategy with
    | appId a => rw [hs] at h; cases h
    | static | custom => rfl
  | revoke =>
    cases hr : c.strategy.isRevocable with
    | true => rw [order?, if_pos hr] at h; cases h
    | false => simp [perform, Attempt.map, revoke, hr]

/-- Reading asks with GET and the others with POST. A login has a body in the place of a token. -/
theorem order?_eq_some {operation : Operation} {o : Http.Order} (h : c.order? operation = some o) :
    (operation.IsRead ∧ o.method = .get ∧ o.body = none ∧ o.token = some c.token) ∨
    (operation = .revoke ∧ o.method = .post ∧ o.body = none ∧ o.token = some c.token) ∨
    ∃ a, operation = .login ∧ c.strategy = .appId a ∧ o.method = .post ∧
      o.body = some a.loginBody ∧ o.token = none := by
  cases operation with
  | read | readValue | readAs =>
    rw [← Option.some.inj h]
    exact Or.inl ⟨trivial, rfl, rfl, rfl⟩
  | revoke =>
    obtain ⟨-, heq⟩ := Option.ite_none_right_eq_some.mp h
    rw [← Option.some.inj heq]
    exact Or.inr (Or.inl ⟨rfl, rfl, rfl, rfl⟩)
  | login =>
    unfold order? at h
    dsimp only at h
    split at h
    · next a ha =>
      rw [← Option.some.inj h]
      exact Or.inr (Or.inr ⟨a, rfl, ha, rfl, rfl, rfl⟩)
    · cases h

/-- An operation that is no login carries out one order with the token of the client, or sends
nothing. -/
theorem perform_requests (c : Client) {operation : Operation} (h : operation ≠ .login)
    (peer : Http.Peer) :
    (c.perform operation peer).1.requests = [] ∨
      ∃ o : Http.Order, o.token = some c.token ∧
        (c.perform operation peer).1.requests = (o.send peer).requests := by
  cases ho : c.order? operation with
  | none => exact Or.inl (requests_of_order?_none ho)
  | some o =>
    have hcarries : (c.perform operation peer).1.Carries o peer := carries_perform ho
    refine Or.inr ⟨o, ?_, hcarries.requests⟩
    rcases order?_eq_some ho with ⟨-, -, -, htoken⟩ | ⟨-, -, -, htoken⟩ | ⟨a, hlogin, -⟩
    · exact htoken
    · exact htoken
    · exact absurd hlogin h

end Client

end SecretClient
