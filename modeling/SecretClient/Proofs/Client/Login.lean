import SecretClient.Proofs.Client.Read
import SecretClient.Proofs.Client.Token
import SecretClient.Proofs.Json.Field

/-!
# Logging in by application and user

What a login comes to, by the final reply of its chain of redirects.

* `AppId.token?_eq_some_iff` : which bodies give which token
* `AppId.login_eq_iff` : the rules by which a login has its result (`AppId.LoginOutcome`), all of them
* `Client.login_outcome` : when a login succeeds, and when it fails in which way. A login that fails
  leaves the client as it was
-/

namespace SecretClient

open Http (TransportError)

namespace AppId

/-! ## The reply -/

/-- The body is a login reply with the token: a record whose field `auth` is a record whose field
`client_token` is that text. -/
def IsLoginReply (bytes : List UInt8) (token : String) : Prop :=
  ∃ o auth, Json.whole Json.tree (Utf8.items bytes) = .ok o ∧ o.Field "auth" auth ∧
    auth.Field "client_token" (.string (some token))

theorem text?_eq_some_iff {o : Json.Tree} {t : String} :
    o.text? = some t ↔ o = .string (some t) := by
  cases o <;> simp [Json.Tree.text?]

/-- **The token of a body is that of the login reply.** -/
theorem token?_eq_some_iff {bytes : List UInt8} {token : String} :
    token? bytes = some token ↔ IsLoginReply bytes token := by
  have hdecodes := Json.decodes_fieldReader
    (Json.decodes_fieldReader Json.decodes_textReader "AuthData" "client_token") "LoginResponse" "auth"
  unfold token? IsLoginReply
  rw [Json.toOption_eq_some_iff, tokenReader, hdecodes.whole_eq_ok_iff]
  simp only [Json.Tree.field?_eq_some_iff, text?_eq_some_iff, exists_eq_right]
  constructor
  · rintro ⟨o, ho, auth, hauth, htoken⟩
    exact ⟨o, auth, ho, hauth, htoken⟩
  · rintro ⟨o, auth, ho, hauth, htoken⟩
    exact ⟨o, ho, auth, hauth, htoken⟩

theorem token?_eq_none_iff {bytes : List UInt8} :
    token? bytes = none ↔ ∀ token, ¬ IsLoginReply bytes token := by
  simp only [← token?_eq_some_iff, Option.eq_none_iff_forall_ne_some, ne_eq]

/-! ## The outcome -/

/-- The results that a login has, by the final reply of the redirects. -/
inductive LoginOutcome (a : AppId) (base : Url) (peer : Http.Peer) : Except Failure String → Prop
  /-- The body is a login reply. -/
  | granted {reply : Http.Reply} {bytes : List UInt8} {token : String} :
      (a.loginOrder base).FinalReply peer reply → reply.status = 200 →
      reply.body = .complete bytes → IsLoginReply bytes token → LoginOutcome a base peer (.ok token)
  /-- The body ends too early or is no login reply. -/
  | invalidReply {reply : Http.Reply} : (a.loginOrder base).FinalReply peer reply →
      reply.status = 200 → (∀ bytes, reply.body = .complete bytes → token? bytes = none) →
      LoginOutcome a base peer
        (.error (.authentication (loginResult.invalidReply (a.loginUrl base).text)))
  /-- The reply has another status. -/
  | unexpectedStatus {reply : Http.Reply} : (a.loginOrder base).FinalReply peer reply →
      reply.status ≠ 200 →
      LoginOutcome a base peer
        (.error (.unexpectedStatus reply.status (a.loginUrl base).text reply.errorText))
  /-- There is no final reply. -/
  | unanswered {e : TransportError} : ((a.loginOrder base).send peer).result = .error e →
      LoginOutcome a base peer (.error (.requestFailed (a.loginUrl base).text e.message))

variable {a : AppId} {base : Url} {peer : Http.Peer}

theorem login_of_final {reply : Http.Reply} (h : (a.loginOrder base).FinalReply peer reply) :
    (a.login base peer).result = loginResult (a.loginUrl base).text reply := by
  unfold login
  dsimp only
  rw [Http.Order.send_result_eq_ok_iff.mpr h]
  rfl

theorem login_of_send_error {e : TransportError}
    (h : ((a.loginOrder base).send peer).result = .error e) :
    (a.login base peer).result = .error (.requestFailed (a.loginUrl base).text e.message) :=
  (Client.carries_appId a base peer).unanswered e h

theorem loginOutcome_login (a : AppId) (base : Url) (peer : Http.Peer) :
    LoginOutcome a base peer (a.login base peer).result := by
  -- the cases are the checks, in the order in which the login makes them
  cases hsend : ((a.loginOrder base).send peer).result with
  | error e =>
    rw [login_of_send_error hsend]
    exact .unanswered hsend
  | ok reply =>
    have hfinal := Http.Order.send_result_eq_ok_iff.mp hsend
    rw [login_of_final hfinal]
    unfold loginResult
    split
    · next hstatus =>
      split
      · next bytes hbody =>
        cases ht : token? bytes with
        | some token => exact .granted hfinal hstatus hbody (token?_eq_some_iff.mp ht)
        | none =>
          refine .invalidReply hfinal hstatus fun bytes' hbody' => ?_
          cases hbody.symm.trans hbody'
          exact ht
      · next hbody =>
        refine .invalidReply hfinal hstatus fun bytes hcomplete => ?_
        cases hbody.symm.trans hcomplete
    · next hstatus => exact .unexpectedStatus hfinal hstatus

/-- **The rules give the result of a login, and only that.** -/
theorem login_eq_iff {result : Except Failure String} :
    (a.login base peer).result = result ↔ LoginOutcome a base peer result := by
  refine ⟨fun h => h ▸ loginOutcome_login a base peer, fun h => ?_⟩
  cases h with
  | granted hfinal hstatus hbody hlogin =>
    rw [login_of_final hfinal, loginResult, if_pos hstatus, hbody]
    dsimp only
    rw [token?_eq_some_iff.mpr hlogin]
  | invalidReply hfinal hstatus hnone =>
    rw [login_of_final hfinal, loginResult, if_pos hstatus]
    split
    · next bytes hbody => rw [hnone bytes hbody]
    · rfl
  | unexpectedStatus hfinal hstatus => rw [login_of_final hfinal, loginResult, if_neg hstatus]
  | unanswered hsend => exact login_of_send_error hsend

/-! ## Which results there are -/

/-- A login gives a token exactly if the final reply has the status 200 and is a login reply with
it. -/
theorem login_ok_iff {token : String} :
    (a.login base peer).result = .ok token ↔
      ∃ reply bytes, (a.loginOrder base).FinalReply peer reply ∧ reply.status = 200 ∧
        reply.body = .complete bytes ∧ IsLoginReply bytes token := by
  simp only [login_eq_ok_iff, token?_eq_some_iff]

theorem errorText_eq_iff {reply : Http.Reply} {body : String} :
    reply.errorText = body ↔
      (∃ bytes, reply.body = .complete bytes ∧ body = Client.bodyText bytes) ∨
        reply.body = .cut ∧ body = "" := by
  unfold Http.Reply.errorText Http.Reply.text?
  cases reply.body with
  | complete bytes => simp [Client.bodyText, eq_comm]
  | cut => simp [eq_comm]

/-- A status is unexpected exactly if it is that of the final reply and is not 200. -/
theorem login_unexpectedStatus_iff {status : Nat} {url body : String} :
    (a.login base peer).result = .error (.unexpectedStatus status url body) ↔
      url = (a.loginUrl base).text ∧ status ≠ 200 ∧
      ∃ reply, (a.loginOrder base).FinalReply peer reply ∧ reply.status = status ∧
        ((∃ bytes, reply.body = .complete bytes ∧ body = Client.bodyText bytes) ∨
          reply.body = .cut ∧ body = "") := by
  simp only [← errorText_eq_iff]
  rw [login_eq_iff]
  constructor
  · intro h
    cases h with
    | unexpectedStatus hfinal hstatus => exact ⟨rfl, hstatus, _, hfinal, rfl, rfl⟩
  · rintro ⟨rfl, hstatus, reply, hfinal, rfl, rfl⟩
    exact .unexpectedStatus hfinal hstatus

/-- A login reply is invalid exactly if the final reply has the status 200 and gives no token. -/
theorem login_authentication_iff {message : String} :
    (a.login base peer).result = .error (.authentication message) ↔
      message = loginResult.invalidReply (a.loginUrl base).text ∧
      ∃ reply, (a.loginOrder base).FinalReply peer reply ∧ reply.status = 200 ∧
        ∀ bytes token, reply.body = .complete bytes → ¬ IsLoginReply bytes token := by
  rw [login_eq_iff]
  constructor
  · intro h
    cases h with
    | invalidReply hfinal hstatus hnone =>
      exact ⟨rfl, _, hfinal, hstatus, fun bytes token hbody =>
        token?_eq_none_iff.mp (hnone bytes hbody) token⟩
  · rintro ⟨rfl, reply, hfinal, hstatus, hnone⟩
    exact .invalidReply hfinal hstatus fun bytes hbody =>
      token?_eq_none_iff.mpr fun token => hnone bytes token hbody

/-- A login fails for want of a reply exactly if there is no final reply. -/
theorem login_requestFailed_iff :
    (∃ message, (a.login base peer).result
      = .error (.requestFailed (a.loginUrl base).text message)) ↔
      ∀ reply, ¬ (a.loginOrder base).FinalReply peer reply := by
  constructor
  · rintro ⟨message, h⟩ reply hreply
    cases login_eq_iff.mp h with
    | unanswered hsend =>
      rw [Http.Order.send_result_eq_ok_iff.mpr hreply] at hsend
      cases hsend
  · intro h
    cases hsend : ((a.loginOrder base).send peer).result with
    | error e => exact ⟨_, login_of_send_error hsend⟩
    | ok reply => exact absurd (Http.Order.send_result_eq_ok_iff.mp hsend) (h reply)

/-- There are three kinds of failures, and all of them speak of the URL of the login. -/
theorem login_error {f : Failure} (h : (a.login base peer).result = .error f) :
    (∃ status body, f = .unexpectedStatus status (a.loginUrl base).text body) ∨
    f = .authentication (loginResult.invalidReply (a.loginUrl base).text) ∨
    ∃ message, f = .requestFailed (a.loginUrl base).text message := by
  cases login_eq_iff.mp h with
  | unexpectedStatus => exact Or.inl ⟨_, _, rfl⟩
  | invalidReply => exact Or.inr (Or.inl rfl)
  | unanswered => exact Or.inr (Or.inr ⟨_, rfl⟩)

end AppId

namespace Client

variable {c : Client} {a : AppId}

/-! ## The client after a login -/

/-- How many logins there were makes no difference to a login by application and user. -/
theorem perform_withLogins (ha : c.strategy = .appId a) (n : Nat) (operation : Operation)
    (peer : Http.Peer) :
    ∃ m, { c with logins := n }.perform operation peer
      = ((c.perform operation peer).1, { (c.perform operation peer).2 with logins := m }) := by
  cases operation with
  | read | readValue | readAs =>
    refine ⟨n, ?_⟩
    simp only [perform, readValue, readAs, read, readOrder, endpoint]
  | login =>
    refine ⟨n + 1, ?_⟩
    simp only [perform, login, ha, Strategy.token]
    cases (a.login c.base peer).result <;> rfl
  | revoke =>
    have hr : c.strategy.isRevocable = true := congrArg Strategy.isRevocable ha
    refine ⟨n, ?_⟩
    simp only [perform, revoke, hr, if_true, revokeOrder, endpoint]
    split
    · rfl
    · split <;> rfl

/-- So a run comes to the same. -/
theorem run_withLogins (ha : c.strategy = .appId a) (n : Nat)
    (steps : List (Operation × Http.Peer)) :
    ({ c with logins := n }.run steps).map Step.attempt = (c.run steps).map Step.attempt := by
  induction steps generalizing c n with
  | nil => rfl
  | cons step rest ih =>
    obtain ⟨m, hm⟩ := perform_withLogins ha n step.1 step.2
    have hstrategy := (perform_effect c step.1 step.2).strategy
    rw [run, run, hm]
    dsimp only
    rw [List.map_cons, List.map_cons, ih (hstrategy.trans ha) m]

theorem token_of_appId (ha : c.strategy = .appId a) (n : Nat) (peer : Http.Peer) :
    c.strategy.token n c.base peer = a.login c.base peer := by
  rw [ha, Strategy.token]

/-- A login by application and user sends its own requests and no others. -/
theorem requests_login (ha : c.strategy = .appId a) (peer : Http.Peer) :
    (c.login peer).1.requests = ((a.loginOrder c.base).send peer).requests := by
  have hcarries := carries_appId a c.base peer
  rw [← token_of_appId ha c.logins] at hcarries
  exact (carries_login hcarries).requests

theorem login_of_ok (ha : c.strategy = .appId a) {peer : Http.Peer} {token : String}
    (h : (a.login c.base peer).result = .ok token) :
    (c.login peer).1.result = .ok () ∧
      (c.login peer).2 = { c with token, logins := c.logins + 1 } := by
  unfold login
  rw [token_of_appId ha]
  dsimp only
  rw [h]
  exact ⟨rfl, rfl⟩

theorem login_of_error (ha : c.strategy = .appId a) {peer : Http.Peer} {f : Failure}
    (h : (a.login c.base peer).result = .error f) :
    (c.login peer).1.result = .error f ∧ (c.login peer).2 = { c with logins := c.logins + 1 } := by
  unfold login
  rw [token_of_appId ha]
  dsimp only
  rw [h]
  exact ⟨rfl, rfl⟩

theorem login_result_ok_iff (ha : c.strategy = .appId a) {peer : Http.Peer} :
    (c.login peer).1.result = .ok () ↔ ∃ token, (a.login c.base peer).result = .ok token := by
  cases h : (a.login c.base peer).result with
  | ok token => simp [(login_of_ok ha h).1]
  | error f => simp [(login_of_error ha h).1]

theorem login_result_error_iff (ha : c.strategy = .appId a) {peer : Http.Peer} {f : Failure} :
    (c.login peer).1.result = .error f ↔ (a.login c.base peer).result = .error f := by
  cases h : (a.login c.base peer).result with
  | ok token => simp [(login_of_ok ha h).1]
  | error f => simp [(login_of_error ha h).1]

/-- **The complete outcome of a login by application and user**: the token of a login reply, a failure
for another status, one for a body that is no login reply, and one if there is no reply at all. A login
that fails leaves the client as it was but for the number of its logins, which makes no difference to
any step behind it. -/
theorem login_outcome (ha : c.strategy = .appId a) (peer : Http.Peer) :
    ((c.login peer).1.result = .ok () ↔
      ∃ reply bytes token, (a.loginOrder c.base).FinalReply peer reply ∧ reply.status = 200 ∧
        reply.body = .complete bytes ∧ AppId.IsLoginReply bytes token) ∧
    (∀ reply bytes token, (a.loginOrder c.base).FinalReply peer reply → reply.status = 200 →
      reply.body = .complete bytes → AppId.IsLoginReply bytes token →
      (c.login peer).2 = { c with token, logins := c.logins + 1 }) ∧
    (∀ status url body, (c.login peer).1.result = .error (.unexpectedStatus status url body) ↔
      url = (a.loginUrl c.base).text ∧ status ≠ 200 ∧
      ∃ reply, (a.loginOrder c.base).FinalReply peer reply ∧ reply.status = status ∧
        ((∃ bytes, reply.body = .complete bytes ∧ body = bodyText bytes) ∨
          reply.body = .cut ∧ body = "")) ∧
    (∀ message, (c.login peer).1.result = .error (.authentication message) ↔
      message = AppId.loginResult.invalidReply (a.loginUrl c.base).text ∧
      ∃ reply, (a.loginOrder c.base).FinalReply peer reply ∧ reply.status = 200 ∧
        ∀ bytes token, reply.body = .complete bytes → ¬ AppId.IsLoginReply bytes token) ∧
    ((∃ message, (c.login peer).1.result
      = .error (.requestFailed (a.loginUrl c.base).text message)) ↔
      ∀ reply, ¬ (a.loginOrder c.base).FinalReply peer reply) ∧
    (c.login peer).1.requests = ((a.loginOrder c.base).send peer).requests ∧
    (∀ f, (c.login peer).1.result = .error f →
      ((∃ status body, f = .unexpectedStatus status (a.loginUrl c.base).text body) ∨
        f = .authentication (AppId.loginResult.invalidReply (a.loginUrl c.base).text) ∨
        ∃ message, f = .requestFailed (a.loginUrl c.base).text message) ∧
      (c.login peer).2 = { c with logins := c.logins + 1 } ∧
      ∀ steps, ((c.login peer).2.run steps).map Step.attempt = (c.run steps).map Step.attempt) := by
  simp only [login_result_ok_iff ha, login_result_error_iff ha]
  refine ⟨?_, ?_, ?_, ?_, AppId.login_requestFailed_iff, requests_login ha peer, ?_⟩
  · simp only [AppId.login_ok_iff]
    constructor
    · rintro ⟨token, reply, bytes, h⟩
      exact ⟨reply, bytes, token, h⟩
    · rintro ⟨reply, bytes, token, h⟩
      exact ⟨token, reply, bytes, h⟩
  · intro reply bytes token hfinal hstatus hbody hlogin
    exact (login_of_ok ha (AppId.login_ok_iff.mpr ⟨reply, bytes, hfinal, hstatus, hbody, hlogin⟩)).2
  · intro status url body
    exact AppId.login_unexpectedStatus_iff
  · intro message
    exact AppId.login_authentication_iff
  · intro f hf
    have hafter := (login_of_error ha hf).2
    refine ⟨AppId.login_error hf, hafter, fun steps => ?_⟩
    rw [hafter]
    exact run_withLogins ha (c.logins + 1) steps

/-- A peer that sends the login elsewhere, where a list gives the token. -/
def examplePeer : Http.Peer where
  script := [.reply { status := 302, location := some "/x" },
    .reply { status := 200, sent := .complete (Utf8.encode
      "[\x7b\"other\":1e999,\"client_token\":\"t\"\x7d]".toList) }]

/-- The login gets the token, whatever else is listed with it. -/
theorem login_examplePeer : exampleClient.strategy = .appId { appId := "a", userId := "u" } ∧
    (exampleClient.login examplePeer).1.result = .ok () ∧
    (exampleClient.login examplePeer).2 = { exampleClient with token := "t", logins := 1 } := by
  have hstrategy : exampleClient.strategy = .appId { appId := "a", userId := "u" } := rfl
  obtain ⟨hok, hgranted, -⟩ := login_outcome hstrategy examplePeer
  have hsend : ((AppId.loginOrder { appId := "a", userId := "u" } exampleClient.base).send
      examplePeer).result = .ok { status := 200, sent := .complete (Utf8.encode
        "[\x7b\"other\":1e999,\"client_token\":\"t\"\x7d]".toList) } := by
    decide +kernel
  have hfinal := Http.Order.send_result_eq_ok_iff.mp hsend
  have htoken : AppId.token? (Utf8.encode
      "[\x7b\"other\":1e999,\"client_token\":\"t\"\x7d]".toList) = some "t" := by
    decide +kernel
  have hlogin := AppId.token?_eq_some_iff.mp htoken
  exact ⟨hstrategy, hok.mpr ⟨_, _, "t", hfinal, rfl, rfl, hlogin⟩,
    hgranted _ _ "t" hfinal rfl rfl hlogin⟩

end Client

end SecretClient
