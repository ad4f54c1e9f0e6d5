import SecretClient.Proofs.Client.Login

/-!
# Replies with another status

Every operation that asks the peer needs one status of the final reply and fails with any other. A login
and a revocation look at the status first and then at the body; a read takes the body first, and when it
ends too early it fails before the status is looked at.

* `bad_status_reported` : which failure comes of another status, and when a failure tells of a status
* `unreported_cutPeer` : a status that a login reports and a read does not
-/

namespace SecretClient

open Http (TransportError)

/-- The status that an operation needs. -/
def Operation.neededStatus : Operation → Nat
  | .revoke => 204
  | _ => 200

/-- The failure that tells of the status of a reply. -/
def Http.Reply.refusal (url : String) (reply : Http.Reply) : Failure :=
  .unexpectedStatus reply.status url reply.errorText

/-- The failure of a read by the status of a reply. When the body ends too early it tells of the body
instead. -/
def Http.Reply.readRefusal (url : String) (reply : Http.Reply) : Failure :=
  match reply.body with
  | .complete _ => reply.refusal url
  | .cut => .requestFailed url TransportError.body.message

/-- The failure of an operation by the status of a reply. -/
def Operation.refusal (operation : Operation) (url : String) (reply : Http.Reply) : Failure :=
  match operation with
  | .login | .revoke => reply.refusal url
  | .read _ | .readValue _ | .readAs _ _ => reply.readRefusal url

/-- An attempt fails by the status of the final reply if it is another than is needed, and tells of a
status for no other reason. -/
structure Attempt.Refuses {α : Type} (attempt : Attempt α) (o : Http.Order) (peer : Http.Peer)
    (needed : Nat) (refusal : Http.Reply → Failure) : Prop where
  refused : ∀ reply, o.FinalReply peer reply → reply.status ≠ needed →
    attempt.result = .error (refusal reply)
  reported : ∀ f status, attempt.result = .error f → f.status? = some status →
    ∃ reply, o.FinalReply peer reply ∧ reply.status = status ∧ status ≠ needed

theorem Attempt.Refuses.map {α β : Type} {attempt : Attempt α} {o : Http.Order} {peer : Http.Peer}
    {needed : Nat} {refusal : Http.Reply → Failure} (h : attempt.Refuses o peer needed refusal)
    (f : α → β) : (attempt.map f).Refuses o peer needed refusal where
  refused := by
    intro reply hfinal hstatus
    rw [Attempt.map, h.refused reply hfinal hstatus]
    rfl
  reported := by
    intro failure status hfailure hreported
    unfold Attempt.map at hfailure
    cases hresult : attempt.result with
    | ok v => rw [hresult] at hfailure; cases hfailure
    | error e =>
      rw [hresult] at hfailure
      cases hfailure
      exact h.reported failure status hresult hreported

namespace Client

variable {c : Client} {peer : Http.Peer}

/-! ## The operations -/

theorem refuses_read (c : Client) (path : String) (peer : Http.Peer) :
    (c.read path peer).Refuses (c.readOrder path) peer 200
      (Http.Reply.readRefusal (c.secretUrl path)) := by
  constructor
  · intro reply hfinal hstatus
    rw [read_of_final hfinal, Http.Reply.readRefusal]
    cases hbody : reply.body with
    | cut => exact readResult_cut hbody
    | complete bytes =>
      rw [readResult_complete hbody, if_neg hstatus, Http.Reply.refusal, Http.Reply.errorText,
        Http.Reply.text?, hbody]
      rfl
  · intro f status hf hreported
    cases read_eq_iff.mp hf with
    | unexpectedStatus hfinal hstatus hbody =>
      cases hreported
      exact ⟨_, hfinal, rfl, hstatus⟩
    | dataMissing | bodyInvalid | cut | unanswered => cases hreported

theorem refuses_readAs {α : Type} (c : Client) (reader : Json.Reader α) (path : String)
    (peer : Http.Peer) :
    (c.readAs reader path peer).Refuses (c.readOrder path) peer 200
      (Http.Reply.readRefusal (c.secretUrl path)) := by
  obtain ⟨hrefused, hreported⟩ := refuses_read c path peer
  refine ⟨fun reply hfinal hstatus => ?_, fun f status hf hstatus => ?_⟩
  · unfold readAs
    dsimp only
    rw [hrefused reply hfinal hstatus]
  · unfold readAs at hf
    dsimp only at hf
    cases hread : (c.read path peer).result with
    | error e =>
      rw [hread] at hf
      cases hf
      exact hreported f status hread hstatus
    | ok data =>
      -- a secret of another shape is a failure without a status
      rw [hread] at hf
      dsimp only at hf
      cases hdecode : Json.decode reader data with
      | ok v => rw [hdecode] at hf; cases hf
      | error e =>
        rw [hdecode] at hf
        cases hf
        cases hstatus

theorem refuses_login {a : AppId} (ha : c.strategy = .appId a) (peer : Http.Peer) :
    (c.login peer).1.Refuses (a.loginOrder c.base) peer 200
      (Http.Reply.refusal (a.loginUrl c.base).text) := by
  constructor
  · intro reply hfinal hstatus
    exact (login_result_error_iff ha).mpr
      (AppId.login_eq_iff.mpr (.unexpectedStatus hfinal hstatus))
  · intro f status hf hreported
    cases AppId.login_eq_iff.mp ((login_result_error_iff ha).mp hf) with
    | unexpectedStatus hfinal hstatus =>
      cases hreported
      exact ⟨_, hfinal, rfl, hstatus⟩
    | invalidReply | unanswered => cases hreported

theorem refuses_revoke (hr : c.strategy.isRevocable = true) (peer : Http.Peer) :
    (c.revoke peer).1.Refuses c.revokeOrder peer 204 (Http.Reply.refusal c.revokeOrder.url) := by
  unfold revoke
  rw [if_pos hr]
  dsimp only
  cases hsend : (c.revokeOrder.send peer).result with
  | error e =>
    refine ⟨fun reply hfinal => ?_, fun f status hf hreported => ?_⟩
    · rw [Http.Order.send_result_eq_ok_iff.mpr hfinal] at hsend
      cases hsend
    · cases hf
      cases hreported
  | ok reply =>
    have hlast := Http.Order.send_result_eq_ok_iff.mp hsend
    dsimp only
    split
    · next hstatus =>
      refine ⟨fun reply' hfinal hother => ?_, fun f status hf => ?_⟩
      · exact absurd (hfinal.unique hlast ▸ hstatus) hother
      · cases hf
    · next hstatus =>
      refine ⟨fun reply' hfinal _ => ?_, fun f status hf hreported => ?_⟩
      · rw [hfinal.unique hlast]
        rfl
      · cases hf
        cases hreported
        exact ⟨reply, hlast, rfl, hstatus⟩

/-- **Every operation fails by the status of the final reply** if it is another than the operation
needs. -/
theorem refuses_perform {operation : Operation} {o : Http.Order} (h : c.order? operation = some o)
    (peer : Http.Peer) :
    (c.perform operation peer).1.Refuses o peer operation.neededStatus (operation.refusal o.url) := by
  cases operation with
  | read path =>
    cases h
    exact (refuses_read c path peer).map _
  | readValue path =>
    cases h
    exact (refuses_readAs c secretReader path peer).map _
  | readAs shape path =>
    cases h
    exact (refuses_readAs c shape.reader path peer).map _
  | login =>
    unfold order? at h
    dsimp only at h
    split at h
    · next a ha =>
      cases h
      rw [perform_login]
      exact (refuses_login ha peer).map _
    · cases h
  | revoke =>
    obtain ⟨hr, heq⟩ := Option.ite_none_right_eq_some.mp h
    cases heq
    rw [perform_revoke]
    exact (refuses_revoke hr peer).map _

/-! ## What is reported -/

variable {operation : Operation} {reply : Http.Reply}

theorem refusal_eq_unexpectedStatus (url : String) (h : ¬ (operation.IsRead ∧ reply.body = .cut)) :
    operation.refusal url reply = .unexpectedStatus reply.status url reply.errorText := by
  cases operation with
  | login | revoke => rfl
  | read | readValue | readAs =>
    unfold Operation.refusal Http.Reply.readRefusal
    cases hbody : reply.body with
    | complete bytes => rfl
    | cut => exact absurd ⟨trivial, hbody⟩ h

theorem refusal_eq_requestFailed (url : String) (hread : operation.IsRead)
    (hbody : reply.body = .cut) :
    operation.refusal url reply = .requestFailed url TransportError.body.message := by
  cases operation with
  | login | revoke => exact hread.elim
  | read | readValue | readAs =>
    unfold Operation.refusal Http.Reply.readRefusal
    dsimp only
    rw [hbody]

/-- A status is lost only by a read, and only when the body ends too early. -/
theorem status?_refusal (url : String) :
    (operation.refusal url reply).status? = some reply.status ↔
      ¬ (operation.IsRead ∧ reply.body = .cut) := by
  constructor
  · rintro h ⟨hread, hbody⟩
    rw [refusal_eq_requestFailed url hread hbody] at h
    cases h
  · intro h
    rw [refusal_eq_unexpectedStatus url h]
    rfl

/-- **Another status than an operation needs is reported**, whatever became of the body, unless the
operation is a read and the body ends too early: then the failure tells of the body. Nothing else makes
a failure tell of a status. -/
theorem bad_status_reported {o : Http.Order} (ho : c.order? operation = some o) (peer : Http.Peer) :
    (∀ reply, o.FinalReply peer reply → reply.status ≠ operation.neededStatus →
      (¬ (operation.IsRead ∧ reply.body = .cut) → (c.perform operation peer).1.result
        = .error (.unexpectedStatus reply.status o.url reply.errorText)) ∧
      (operation.IsRead → reply.body = .cut → (c.perform operation peer).1.result
        = .error (.requestFailed o.url TransportError.body.message))) ∧
    ∀ status,
      (∃ f, (c.perform operation peer).1.result = .error f ∧ f.status? = some status) ↔
        ∃ reply, o.FinalReply peer reply ∧ reply.status = status ∧
          status ≠ operation.neededStatus ∧ ¬ (operation.IsRead ∧ reply.body = .cut) := by
  obtain ⟨hrefused, hreported⟩ := refuses_perform ho peer
  refine ⟨fun reply hfinal hstatus => ?_, fun status => ⟨?_, ?_⟩⟩
  · rw [hrefused reply hfinal hstatus]
    exact ⟨fun h => by rw [refusal_eq_unexpectedStatus o.url h],
      fun hread hbody => by rw [refusal_eq_requestFailed o.url hread hbody]⟩
  · rintro ⟨f, hf, hstatus⟩
    obtain ⟨reply, hfinal, rfl, hneeded⟩ := hreported f status hf hstatus
    cases hf.symm.trans (hrefused reply hfinal hneeded)
    exact ⟨reply, hfinal, rfl, hneeded, (status?_refusal o.url).mp hstatus⟩
  · rintro ⟨reply, hfinal, rfl, hneeded, hlost⟩
    exact ⟨_, hrefused reply hfinal hneeded, (status?_refusal o.url).mpr hlost⟩

/-- A peer that answers with 404, and with a body that ends too early. -/
def cutPeer : Http.Peer where
  script := [.reply { status := 404, sent := .cut }]

/-- A login reports the status. -/
theorem bad_status_reported_cutPeer :
    exampleClient.order? .login
      = some (AppId.loginOrder { appId := "a", userId := "u" } exampleClient.base) ∧
    (exampleClient.perform .login cutPeer).1.result
      = .error (.unexpectedStatus 404 "http://v/v1/auth/app-id/login" "") := by
  have horder : exampleClient.order? .login
      = some (AppId.loginOrder { appId := "a", userId := "u" } exampleClient.base) := rfl
  have hsend : ((AppId.loginOrder { appId := "a", userId := "u" } exampleClient.base).send
      cutPeer).result = .ok { status := 404, sent := .cut } := by decide +kernel
  have hfinal := Http.Order.send_result_eq_ok_iff.mp hsend
  have hreported := ((bad_status_reported horder cutPeer).1 _ hfinal (by decide)).1 fun h => h.1
  exact ⟨horder, hreported⟩

/-- **A read does not**: the peer answers it with the status 404, and the failure tells of none. -/
theorem unreported_cutPeer :
    (exampleClient.readOrder "a").FinalReply cutPeer { status := 404, sent := .cut } ∧
    ∃ f, (exampleClient.perform (.read "a") cutPeer).1.result = .error f ∧ f.status? = none := by
  have hsend : ((exampleClient.readOrder "a").send cutPeer).result
      = .ok { status := 404, sent := .cut } := by decide +kernel
  have hfinal := Http.Order.send_result_eq_ok_iff.mp hsend
  have horder : exampleClient.order? (.read "a") = some (exampleClient.readOrder "a") := rfl
  have hresult := (refuses_perform horder cutPeer).refused _ hfinal (by decide)
  exact ⟨hfinal, _, hresult, rfl⟩

end Client

end SecretClient
