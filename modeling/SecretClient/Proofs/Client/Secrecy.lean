import SecretClient.Proofs.Client.Token
import SecretClient.Proofs.Http.Alike

/-!
# Secrets stay where they belong

Two clients that differ only in their secrets, and that take the same steps with peers that differ
only in the tokens they give, cannot be told apart by what they tell: their events and their results
are the same at every step, and their requests differ only in the token and in the body of the login.

* `perform_alike`, `run_alike` : one operation with what it leaves, and every step of a run
* `perform_events`, `run_events` : where reads meet any peers at all, the events are still the same
* `secrets_untold` : both for whole runs
-/

namespace SecretClient

open Http (Request)

/-! ## What is alike -/

/-- A header can hold both tokens, or neither. -/
def TokensAlike (t t' : String) : Prop := Http.headerHolds t' = Http.headerHolds t

/-- Both give a token, or both fail in the same way. -/
inductive GrantAlike : Except Failure String → Except Failure String → Prop
  | ok {t t' : String} : TokensAlike t t' → GrantAlike (.ok t) (.ok t')
  | error (f : Failure) : GrantAlike (.error f) (.error f)

/-- Replies to a login that are the same, or that both give a token. -/
inductive LoginReplyAlike : Http.Reply → Http.Reply → Prop
  | same (reply : Http.Reply) : LoginReplyAlike reply reply
  | granted {reply reply' : Http.Reply} {bytes bytes' : List UInt8} {t t' : String} :
      reply.status = 200 → reply'.status = 200 → reply'.location = reply.location →
      reply.body = .complete bytes → reply'.body = .complete bytes' →
      AppId.token? bytes = some t → AppId.token? bytes' = some t' → TokensAlike t t' →
      LoginReplyAlike reply reply'

/-- Strategies that differ only in their credentials or in the tokens that they give. -/
inductive Strategy.Alike : Strategy → Strategy → Prop
  | appId {a a' : AppId} : a'.mount = a.mount → Alike (.appId a) (.appId a')
  | static {t t' : String} : TokensAlike t t' → Alike (.static t) (.static t')
  | custom {s s' : CustomStrategy} : s'.name = s.name → s'.revocable = s.revocable →
      (∀ n, GrantAlike (s.issue n) (s'.issue n)) → Alike (.custom s) (.custom s')

/-- Clients that differ only in their credentials and in their tokens. -/
structure Client.Alike (c c' : Client) : Prop where
  base : c'.base = c.base
  timeout : c'.timeout = c.timeout
  logins : c'.logins = c.logins
  strategy : c.strategy.Alike c'.strategy
  token : TokensAlike c.token c'.token

/-- Attempts that tell the same, with results as `S` has them, and of which the requests differ at
most in the token and in the body. -/
structure Attempt.Alike {α : Type} (S : Except Failure α → Except Failure α → Prop)
    (x x' : Attempt α) : Prop where
  events : x'.events = x.events
  result : S x.result x'.result
  requests : List.Forall₂ Request.Alike x.requests x'.requests

/-- The same step, or a login that meets a peer with other tokens. -/
inductive StepAlike : Operation × Http.Peer → Operation × Http.Peer → Prop
  | same (step : Operation × Http.Peer) : StepAlike step step
  | login {peer peer' : Http.Peer} : peer.Alike LoginReplyAlike peer' →
      StepAlike (.login, peer) (.login, peer')

/-- An alike step, or a read that meets a peer with other replies. -/
inductive StepToldAlike : Operation × Http.Peer → Operation × Http.Peer → Prop
  | alike {step step' : Operation × Http.Peer} : StepAlike step step' → StepToldAlike step step'
  | read {operation : Operation} {peer peer' : Http.Peer} : operation.IsRead →
      StepToldAlike (operation, peer) (operation, peer')

/-! ## One operation -/

namespace Attempt

theorem Alike.map {α β : Type} {x x' : Attempt α} (h : x.Alike Eq x') (f : α → β) :
    (x.map f).Alike Eq (x'.map f) :=
  ⟨h.events, congrArg (Except.map f) h.result, h.requests⟩

end Attempt

theorem Strategy.Alike.name {s s' : Strategy} (h : s.Alike s') : s'.name = s.name := by
  cases h with
  | appId | static => rfl
  | custom hname => exact hname

theorem Strategy.Alike.isRevocable {s s' : Strategy} (h : s.Alike s') :
    s'.isRevocable = s.isRevocable := by
  cases h with
  | appId | static => rfl
  | custom _ hrevocable => exact hrevocable

namespace Client

variable {c c' : Client} {peer peer' : Http.Peer}

theorem Alike.endpoint (h : c.Alike c') (path : String) : c'.endpoint path = c.endpoint path := by
  unfold Client.endpoint
  rw [h.base]

theorem Alike.readOrder (h : c.Alike c') (path : String) :
    (c.readOrder path).Alike (c'.readOrder path) :=
  ⟨rfl, h.endpoint _, congrArg some h.token, rfl⟩

theorem Alike.revokeOrder (h : c.Alike c') : c.revokeOrder.Alike c'.revokeOrder :=
  ⟨rfl, h.endpoint _, congrArg some h.token, rfl⟩

theorem read_alike (h : c.Alike c') (path : String) (peer : Http.Peer) :
    (c.read path peer).Alike Eq (c'.read path peer) := by
  have horder := h.readOrder path
  have hsend := Http.Order.send_alike Http.sameHead_eq horder (.refl (fun _ => rfl) peer)
  unfold read
  dsimp only
  generalize (c.readOrder path).send peer = x at hsend ⊢
  generalize (c'.readOrder path).send peer = x' at hsend ⊢
  rw [hsend.result.eq, horder.url]
  exact ⟨rfl, rfl, hsend.requests⟩

theorem readAs_alike {α : Type} (h : c.Alike c') (reader : Json.Reader α) (path : String)
    (peer : Http.Peer) : (c.readAs reader path peer).Alike Eq (c'.readAs reader path peer) := by
  have hread := read_alike h path peer
  unfold readAs
  generalize c.read path peer = x at hread ⊢
  generalize c'.read path peer = x' at hread ⊢
  dsimp only
  rw [hread.result]
  exact ⟨hread.events, rfl, hread.requests⟩

theorem revoke_alike (h : c.Alike c') (peer : Http.Peer) :
    (c.revoke peer).1.Alike Eq (c'.revoke peer).1 ∧ (c.revoke peer).2.Alike (c'.revoke peer).2 := by
  have horder := h.revokeOrder
  have hsend := Http.Order.send_alike Http.sameHead_eq horder (.refl (fun _ => rfl) peer)
  unfold revoke
  rw [h.strategy.isRevocable, h.strategy.name]
  split
  · dsimp only
    generalize c.revokeOrder.send peer = x at hsend ⊢
    generalize c'.revokeOrder.send peer = x' at hsend ⊢
    rw [hsend.result.eq, horder.url]
    split
    · exact ⟨⟨rfl, rfl, hsend.requests⟩, h⟩
    · split
      · exact ⟨⟨rfl, rfl, hsend.requests⟩, h.base, h.timeout, h.logins, h.strategy, rfl⟩
      · exact ⟨⟨rfl, rfl, hsend.requests⟩, h⟩
  · exact ⟨⟨rfl, rfl, .nil⟩, h⟩

/-! ## Logging in -/

theorem sameHead_loginReplyAlike : Http.SameHead LoginReplyAlike := by
  intro reply reply' h
  cases h with
  | same => exact ⟨rfl, rfl⟩
  | granted hstatus hstatus' hlocation => exact ⟨hstatus'.trans hstatus.symm, hlocation⟩

/-- Alike replies to a login give alike tokens or the same failure. -/
theorem loginResult_alike {reply reply' : Http.Reply} (h : LoginReplyAlike reply reply')
    (url : String) : GrantAlike (AppId.loginResult url reply) (AppId.loginResult url reply') := by
  cases h with
  | same =>
    cases AppId.loginResult url reply with
    | ok t => exact .ok rfl
    | error f => exact .error f
  | granted hstatus hstatus' _ hbody hbody' ht ht' htokens =>
    unfold AppId.loginResult
    rw [if_pos hstatus, if_pos hstatus', hbody, hbody']
    dsimp only
    rw [ht, ht']
    exact .ok htokens

theorem token_alike {s s' : Strategy} (h : s.Alike s') (n : Nat) (base : Url)
    (hpeer : peer.Alike LoginReplyAlike peer') :
    (s.token n base peer).Alike GrantAlike (s'.token n base peer') := by
  cases h with
  | static ht => exact ⟨rfl, .ok ht, .nil⟩
  | custom _ _ hissue => exact ⟨rfl, hissue n, .nil⟩
  | @appId a a' hmount =>
    have hurl : a'.loginUrl base = a.loginUrl base := by
      unfold AppId.loginUrl
      rw [hmount]
    have horder : (a.loginOrder base).Alike (a'.loginOrder base) :=
      ⟨rfl, congrArg Url.text hurl, rfl, rfl⟩
    have hsend := Http.Order.send_alike sameHead_loginReplyAlike horder hpeer
    simp only [Strategy.token, AppId.login]
    generalize (a.loginOrder base).send peer = x at hsend ⊢
    generalize (a'.loginOrder base).send peer' = x' at hsend ⊢
    obtain ⟨requests, result⟩ := x
    obtain ⟨requests', result'⟩ := x'
    obtain ⟨hrequests, hresult⟩ := hsend
    rw [horder.url]
    cases hresult with
    | error e => exact ⟨rfl, .error _, hrequests⟩
    | ok hreply => exact ⟨rfl, loginResult_alike hreply _, hrequests⟩

theorem login_alike (h : c.Alike c') (hpeer : peer.Alike LoginReplyAlike peer') :
    (c.login peer).1.Alike Eq (c'.login peer').1 ∧ (c.login peer).2.Alike (c'.login peer').2 := by
  have htoken := token_alike h.strategy c.logins c.base hpeer
  unfold login
  rw [h.logins, h.base, h.strategy.name]
  generalize c.strategy.token c.logins c.base peer = x at htoken ⊢
  generalize c'.strategy.token c.logins c.base peer' = x' at htoken ⊢
  obtain ⟨result, events, requests⟩ := x
  obtain ⟨result', events', requests'⟩ := x'
  obtain ⟨hevents, hresult, hrequests⟩ := htoken
  cases hevents
  cases hresult with
  | error f => exact ⟨⟨rfl, rfl, hrequests⟩, rfl, h.timeout, rfl, h.strategy, h.token⟩
  | ok ht => exact ⟨⟨rfl, rfl, hrequests⟩, rfl, h.timeout, rfl, h.strategy, ht⟩

/-- **One operation on alike clients tells the same and leaves them alike.** -/
theorem perform_alike (h : c.Alike c') {operation operation' : Operation}
    (hstep : StepAlike (operation, peer) (operation', peer')) :
    (c.perform operation peer).1.Alike Eq (c'.perform operation' peer').1 ∧
      (c.perform operation peer).2.Alike (c'.perform operation' peer').2 := by
  have hlogin : ∀ {peer peer' : Http.Peer}, peer.Alike LoginReplyAlike peer' →
      (c.perform .login peer).1.Alike Eq (c'.perform .login peer').1 ∧
        (c.perform .login peer).2.Alike (c'.perform .login peer').2 := by
    intro peer peer' hpeer
    rw [perform_login, perform_login]
    obtain ⟨hattempt, hafter⟩ := login_alike h hpeer
    exact ⟨hattempt.map _, hafter⟩
  cases hstep with
  | login hpeer => exact hlogin hpeer
  | same =>
    cases operation with
    | login => exact hlogin (.refl .same peer)
    | read path => exact ⟨(read_alike h path peer).map _, h⟩
    | readValue path => exact ⟨(readAs_alike h _ path peer).map _, h⟩
    | readAs shape path => exact ⟨(readAs_alike h _ path peer).map _, h⟩
    | revoke =>
      rw [perform_revoke, perform_revoke]
      obtain ⟨hattempt, hafter⟩ := revoke_alike h peer
      exact ⟨hattempt.map _, hafter⟩

/-- What a read tells does not depend on the replies that it gets. -/
theorem perform_events_of_isRead (h : c.Alike c') {operation : Operation} (hread : operation.IsRead)
    (peer peer' : Http.Peer) :
    (c'.perform operation peer').1.events = (c.perform operation peer).1.events ∧
      (c.perform operation peer).2.Alike (c'.perform operation peer').2 := by
  have hevents : ∀ path, (c'.read path peer').events = (c.read path peer).events := by
    intro path
    simp only [read, (h.readOrder path).url]
  cases operation with
  | login | revoke => exact hread.elim
  | read path => exact ⟨hevents path, h⟩
  | readValue path => exact ⟨hevents path, h⟩
  | readAs shape path => exact ⟨hevents path, h⟩

theorem perform_events (h : c.Alike c') {operation operation' : Operation}
    (hstep : StepToldAlike (operation, peer) (operation', peer')) :
    (c'.perform operation' peer').1.events = (c.perform operation peer).1.events ∧
      (c.perform operation peer).2.Alike (c'.perform operation' peer').2 := by
  cases hstep with
  | alike hstep =>
    obtain ⟨hattempt, hafter⟩ := perform_alike h hstep
    exact ⟨hattempt.events, hafter⟩
  | read hread => exact perform_events_of_isRead h hread peer peer'

/-! ## Runs -/

variable {steps steps' : List (Operation × Http.Peer)}

/-- **Alike runs tell the same at every step.** -/
theorem run_alike (h : c.Alike c') (hsteps : List.Forall₂ StepAlike steps steps') :
    List.Forall₂ (fun s s' => s.attempt.Alike Eq s'.attempt) (c.run steps) (c'.run steps') := by
  induction hsteps generalizing c c' with
  | nil => exact .nil
  | cons hstep _ ih =>
    obtain ⟨hattempt, hafter⟩ := perform_alike h hstep
    exact .cons hattempt (ih hafter)

/-- **Runs whose reads meet other peers still have the same events.** -/
theorem run_events (h : c.Alike c') (hsteps : List.Forall₂ StepToldAlike steps steps') :
    List.Forall₂ (fun s s' => s'.attempt.events = s.attempt.events) (c.run steps)
      (c'.run steps') := by
  induction hsteps generalizing c c' with
  | nil => exact .nil
  | cons hstep _ ih =>
    obtain ⟨hevents, hafter⟩ := perform_events h hstep
    exact .cons hevents (ih hafter)

/-- **No secret is told.** Clients with other credentials and tokens have the same events and results,
and their requests differ in what they carry only. What is read makes no difference to the events. -/
theorem secrets_untold (h : c.Alike c') :
    (∀ steps steps', List.Forall₂ StepAlike steps steps' →
      List.Forall₂ (fun s s' => s'.attempt.events = s.attempt.events ∧
        s'.attempt.result = s.attempt.result ∧
        List.Forall₂ Request.Alike s.attempt.requests s'.attempt.requests)
      (c.run steps) (c'.run steps')) ∧
    (∀ steps steps', List.Forall₂ StepToldAlike steps steps' →
      List.Forall₂ (fun s s' => s'.attempt.events = s.attempt.events) (c.run steps)
        (c'.run steps')) := by
  refine ⟨?_, ?_⟩
  · intro steps steps' hsteps
    refine (run_alike h hsteps).imp ?_
    intro s s' hs
    exact ⟨hs.events, hs.result.symm, hs.requests⟩
  · intro steps steps' hsteps
    exact run_events h hsteps

/-- The client with other credentials. -/
def otherClient : Client :=
  { exampleClient with strategy := .appId { appId := "b", userId := "w" } }

/-- The steps with another token. -/
def otherSteps : List (Operation × Http.Peer) :=
  [(.login, { script := [.reply { status := 307, location := some "/x" },
      .reply { status := 200, sent := .complete (Utf8.encode
        "\x7b\"auth\":\x7b\"client_token\":\"other\"\x7d\x7d".toList) }] }),
    (.read "a", {}),
    (.revoke, { script := [.reply { status := 500 }] })]

/-- The two clients tell the same. -/
theorem otherClient_untold :
    exampleClient.Alike otherClient ∧ List.Forall₂ StepAlike exampleSteps otherSteps ∧
      List.Forall₂ (fun s s' => s'.attempt.events = s.attempt.events ∧
        s'.attempt.result = s.attempt.result ∧
        List.Forall₂ Request.Alike s.attempt.requests s'.attempt.requests)
      (exampleClient.run exampleSteps) (otherClient.run otherSteps) := by
  have hclient : exampleClient.Alike otherClient := ⟨rfl, rfl, rfl, .appId rfl, rfl⟩
  have ht : AppId.token? (Utf8.encode
      "\x7b\"auth\":\x7b\"client_token\":\"t\"\x7d\x7d".toList) = some "t" := by
    decide +kernel
  have ht' : AppId.token? (Utf8.encode
      "\x7b\"auth\":\x7b\"client_token\":\"other\"\x7d\x7d".toList) = some "other" := by
    decide +kernel
  have hheld : TokensAlike "t" "other" := by
    unfold TokensAlike
    decide
  have hlogin : ∀ {bytes bytes' : List UInt8}, AppId.token? bytes = some "t" →
      AppId.token? bytes' = some "other" →
      LoginReplyAlike { status := 200, sent := .complete bytes }
        { status := 200, sent := .complete bytes' } := by
    intro bytes bytes' h h'
    exact .granted rfl rfl rfl rfl rfl h h' hheld
  have hsteps : List.Forall₂ StepAlike exampleSteps otherSteps :=
    .cons (.login ⟨rfl, rfl, .cons (.reply (.same _)) (.cons (.reply (hlogin ht ht')) .nil)⟩)
      (.cons (.same _) (.cons (.same _) .nil))
  exact ⟨hclient, hsteps, (secrets_untold hclient).1 exampleSteps otherSteps hsteps⟩

end Client

end SecretClient
