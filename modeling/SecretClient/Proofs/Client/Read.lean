import SecretClient.Proofs.Client.Token
import SecretClient.Proofs.Json.Member
import SecretClient.Proofs.Url.Scheme

/-!
# Reading a secret

What reading a secret comes to, by the final reply of its chain of redirects.

* `read_eq_iff` : the rules by which a read has its result (`ReadOutcome`), all of them
* `read_outcome` : when a read gives which secret or which failure. Every failure names the URL of
  the path, wherever a redirect may have led
-/

namespace SecretClient

open Http (TransportError headerHolds)

/-- What is taken from a body: its last member `data`, if it is an object with one. -/
theorem Client.extractData_eq (url body : String) :
    Client.extractData url body =
      match Json.decode Json.listedReader body with
      | .error e => .error (.bodyInvalid url e.message)
      | .ok listed =>
        match listed.reverse.lookup "data" with
        | some v => .ok v.text
        | none => .error (.dataMissing url body) := by
  unfold Client.extractData
  rw [Json.decode_objectReader]
  cases Json.decode Json.listedReader body with
  | error e => rfl
  | ok listed =>
    cases hdata : listed.reverse.lookup "data" with
    | none => simp only [Except.map, Json.member?_collectMembers, hdata]
    | some v => simp only [Except.map, Json.member?_collectMembers, hdata]

namespace Client

/-- The URL of the secret at a path. -/
def secretUrl (c : Client) (path : String) : String := c.endpoint (SecretPath.apiPath path)

/-- The text of a body that arrived. -/
def bodyText (bytes : List UInt8) : String := String.ofList (Utf8.lossy bytes)

/-- The results that reading the secret at a path has, by the final reply of the redirects. -/
inductive ReadOutcome (c : Client) (path : String) (peer : Http.Peer) :
    Except Failure String → Prop
  /-- The body is an object, and the last of its members `data` is the secret. -/
  | secret {reply : Http.Reply} {bytes : List UInt8} {listed : List (String × Json.Value)}
      {v : Json.Value} : (c.readOrder path).FinalReply peer reply → reply.status = 200 →
      reply.body = .complete bytes → Json.decode Json.listedReader (bodyText bytes) = .ok listed →
      listed.reverse.lookup "data" = some v → ReadOutcome c path peer (.ok v.text)
  /-- The body is an object without a member `data`. -/
  | dataMissing {reply : Http.Reply} {bytes : List UInt8} {listed : List (String × Json.Value)} :
      (c.readOrder path).FinalReply peer reply → reply.status = 200 →
      reply.body = .complete bytes → Json.decode Json.listedReader (bodyText bytes) = .ok listed →
      listed.reverse.lookup "data" = none →
      ReadOutcome c path peer (.error (.dataMissing (c.secretUrl path) (bodyText bytes)))
  /-- The body is no object. -/
  | bodyInvalid {reply : Http.Reply} {bytes : List UInt8} {e : Json.Error} :
      (c.readOrder path).FinalReply peer reply → reply.status = 200 →
      reply.body = .complete bytes → Json.decode Json.listedReader (bodyText bytes) = .error e →
      ReadOutcome c path peer (.error (.bodyInvalid (c.secretUrl path) e.message))
  /-- The reply has another status. -/
  | unexpectedStatus {reply : Http.Reply} {bytes : List UInt8} :
      (c.readOrder path).FinalReply peer reply → reply.status ≠ 200 →
      reply.body = .complete bytes →
      ReadOutcome c path peer
        (.error (.unexpectedStatus reply.status (c.secretUrl path) (bodyText bytes)))
  /-- The body ends too early. -/
  | cut {reply : Http.Reply} : (c.readOrder path).FinalReply peer reply → reply.body = .cut →
      ReadOutcome c path peer
        (.error (.requestFailed (c.secretUrl path) TransportError.body.message))
  /-- There is no final reply. -/
  | unanswered {e : TransportError} : ((c.readOrder path).send peer).result = .error e →
      ReadOutcome c path peer (.error (.requestFailed (c.secretUrl path) e.message))

variable {c : Client} {path : String} {peer : Http.Peer}

theorem read_of_final {reply : Http.Reply} (h : (c.readOrder path).FinalReply peer reply) :
    (c.read path peer).result = readResult (c.secretUrl path) reply := by
  unfold read
  dsimp only
  rw [Http.Order.send_result_eq_ok_iff.mpr h]
  rfl

theorem read_of_unanswered {e : TransportError}
    (h : ((c.readOrder path).send peer).result = .error e) :
    (c.read path peer).result = .error (.requestFailed (c.secretUrl path) e.message) :=
  (carries_read c path peer).unanswered e h

theorem readResult_complete {url : String} {reply : Http.Reply} {bytes : List UInt8}
    (h : reply.body = .complete bytes) :
    readResult url reply =
      if reply.status = 200 then extractData url (bodyText bytes)
      else .error (.unexpectedStatus reply.status url (bodyText bytes)) := by
  unfold readResult Http.Reply.text?
  rw [h]
  rfl

theorem readResult_cut {url : String} {reply : Http.Reply} (h : reply.body = .cut) :
    readResult url reply = .error (.requestFailed url TransportError.body.message) := by
  unfold readResult Http.Reply.text?
  rw [h]

theorem readOutcome_read (c : Client) (path : String) (peer : Http.Peer) :
    ReadOutcome c path peer (c.read path peer).result := by
  -- the cases are the checks, in the order in which the read makes them
  cases hsend : ((c.readOrder path).send peer).result with
  | error e =>
    rw [read_of_unanswered hsend]
    exact .unanswered hsend
  | ok reply =>
    have hfinal := Http.Order.send_result_eq_ok_iff.mp hsend
    rw [read_of_final hfinal]
    cases hbody : reply.body with
    | cut =>
      rw [readResult_cut hbody]
      exact .cut hfinal hbody
    | complete bytes =>
      rw [readResult_complete hbody]
      split
      · next hstatus =>
        rw [extractData_eq]
        cases hlisted : Json.decode Json.listedReader (bodyText bytes) with
        | error e => exact .bodyInvalid hfinal hstatus hbody hlisted
        | ok listed =>
          dsimp only
          cases hdata : listed.reverse.lookup "data" with
          | none => exact .dataMissing hfinal hstatus hbody hlisted hdata
          | some v => exact .secret hfinal hstatus hbody hlisted hdata
      · next hstatus => exact .unexpectedStatus hfinal hstatus hbody

/-- **The rules give the result of a read, and only that.** -/
theorem read_eq_iff {result : Except Failure String} :
    (c.read path peer).result = result ↔ ReadOutcome c path peer result := by
  refine ⟨fun h => h ▸ readOutcome_read c path peer, fun h => ?_⟩
  cases h with
  | secret hfinal hstatus hbody hlisted hdata =>
    rw [read_of_final hfinal, readResult_complete hbody, if_pos hstatus, extractData_eq, hlisted]
    simp only [hdata]
  | dataMissing hfinal hstatus hbody hlisted hdata =>
    rw [read_of_final hfinal, readResult_complete hbody, if_pos hstatus, extractData_eq, hlisted]
    simp only [hdata]
  | bodyInvalid hfinal hstatus hbody hlisted =>
    rw [read_of_final hfinal, readResult_complete hbody, if_pos hstatus, extractData_eq, hlisted]
  | unexpectedStatus hfinal hstatus hbody =>
    rw [read_of_final hfinal, readResult_complete hbody, if_neg hstatus]
  | cut hfinal hbody => rw [read_of_final hfinal, readResult_cut hbody]
  | unanswered hsend => exact read_of_unanswered hsend

/-! ## Which results there are -/

/-- A read gives a secret exactly if the final reply has the status 200 and an object with a secret. -/
theorem read_ok_iff {data : String} :
    (c.read path peer).result = .ok data ↔
      ∃ reply bytes listed v, (c.readOrder path).FinalReply peer reply ∧ reply.status = 200 ∧
        reply.body = .complete bytes ∧ Json.decode Json.listedReader (bodyText bytes) = .ok listed ∧
        listed.reverse.lookup "data" = some v ∧ data = v.text := by
  rw [read_eq_iff]
  constructor
  · intro h
    cases h with
    | secret hfinal hstatus hbody hlisted hdata =>
      exact ⟨_, _, _, _, hfinal, hstatus, hbody, hlisted, hdata, rfl⟩
  · rintro ⟨reply, bytes, listed, v, hfinal, hstatus, hbody, hlisted, hdata, rfl⟩
    exact .secret hfinal hstatus hbody hlisted hdata

/-- A secret is missing exactly if the final reply has the status 200 and an object without one. -/
theorem read_dataMissing_iff {url body : String} :
    (c.read path peer).result = .error (.dataMissing url body) ↔
      url = c.secretUrl path ∧
      ∃ reply bytes listed, (c.readOrder path).FinalReply peer reply ∧ reply.status = 200 ∧
        reply.body = .complete bytes ∧ body = bodyText bytes ∧
        Json.decode Json.listedReader body = .ok listed ∧ listed.reverse.lookup "data" = none := by
  rw [read_eq_iff]
  constructor
  · intro h
    cases h with
    | dataMissing hfinal hstatus hbody hlisted hdata =>
      exact ⟨rfl, _, _, _, hfinal, hstatus, hbody, rfl, hlisted, hdata⟩
  · rintro ⟨rfl, reply, bytes, listed, hfinal, hstatus, hbody, rfl, hlisted, hdata⟩
    exact .dataMissing hfinal hstatus hbody hlisted hdata

/-- A body is invalid exactly if the final reply has the status 200 and no object. -/
theorem read_bodyInvalid_iff {url message : String} :
    (c.read path peer).result = .error (.bodyInvalid url message) ↔
      url = c.secretUrl path ∧
      ∃ reply bytes e, (c.readOrder path).FinalReply peer reply ∧ reply.status = 200 ∧
        reply.body = .complete bytes ∧
        Json.decode Json.listedReader (bodyText bytes) = .error e ∧ message = e.message := by
  rw [read_eq_iff]
  constructor
  · intro h
    cases h with
    | bodyInvalid hfinal hstatus hbody hlisted =>
      exact ⟨rfl, _, _, _, hfinal, hstatus, hbody, hlisted, rfl⟩
  · rintro ⟨rfl, reply, bytes, e, hfinal, hstatus, hbody, hlisted, rfl⟩
    exact .bodyInvalid hfinal hstatus hbody hlisted

/-- A status is unexpected exactly if it is that of the final reply, is not 200, and the body
arrived. -/
theorem read_unexpectedStatus_iff {status : Nat} {url body : String} :
    (c.read path peer).result = .error (.unexpectedStatus status url body) ↔
      url = c.secretUrl path ∧
      ∃ reply bytes, (c.readOrder path).FinalReply peer reply ∧ reply.status = status ∧
        status ≠ 200 ∧ reply.body = .complete bytes ∧ body = bodyText bytes := by
  rw [read_eq_iff]
  constructor
  · intro h
    cases h with
    | unexpectedStatus hfinal hstatus hbody => exact ⟨rfl, _, _, hfinal, rfl, hstatus, hbody, rfl⟩
  · rintro ⟨rfl, reply, bytes, hfinal, rfl, hstatus, hbody, rfl⟩
    exact .unexpectedStatus hfinal hstatus hbody

/-- A read fails for want of a whole reply exactly if no final reply has a body that arrives. -/
theorem read_requestFailed_iff :
    (∃ url message, (c.read path peer).result = .error (.requestFailed url message)) ↔
      ∀ reply, (c.readOrder path).FinalReply peer reply → reply.body = .cut := by
  constructor
  · rintro ⟨url, message, h⟩ reply hreply
    cases read_eq_iff.mp h with
    | cut hfinal hbody => rw [hreply.unique hfinal, hbody]
    | unanswered hsend =>
      rw [Http.Order.send_result_eq_ok_iff.mpr hreply] at hsend
      cases hsend
  · intro h
    cases hsend : ((c.readOrder path).send peer).result with
    | error e => exact ⟨_, _, read_eq_iff.mpr (.unanswered hsend)⟩
    | ok reply =>
      have hfinal := Http.Order.send_result_eq_ok_iff.mp hsend
      exact ⟨_, _, read_eq_iff.mpr (.cut hfinal (h reply hfinal))⟩

/-- There are four kinds of failures, and all of them name the URL of the path. -/
theorem read_error {f : Failure} (h : (c.read path peer).result = .error f) :
    (∃ body, f = .dataMissing (c.secretUrl path) body) ∨
    (∃ message, f = .bodyInvalid (c.secretUrl path) message) ∨
    (∃ status body, f = .unexpectedStatus status (c.secretUrl path) body) ∨
    ∃ message, f = .requestFailed (c.secretUrl path) message := by
  cases read_eq_iff.mp h with
  | dataMissing => exact Or.inl ⟨_, rfl⟩
  | bodyInvalid => exact Or.inr (Or.inl ⟨_, rfl⟩)
  | unexpectedStatus => exact Or.inr (Or.inr (Or.inl ⟨_, _, rfl⟩))
  | cut => exact Or.inr (Or.inr (Or.inr ⟨_, rfl⟩))
  | unanswered => exact Or.inr (Or.inr (Or.inr ⟨_, rfl⟩))

/-! ## What is never sent -/

/-- The URL of a secret has the scheme of the address. -/
theorem secretUrl_scheme {address : String} (h : Url.parse address = .ok c.base) {u : Url}
    (hu : Url.parse (c.secretUrl path) = .ok u) : u.scheme = c.base.scheme := by
  have hscheme := Url.scheme_withPath c.base (SecretPath.apiPath path)
  rw [← hscheme]
  refine Url.scheme_of_parse_text ?_ hu
  rw [hscheme]
  exact Url.isScheme_of_parse h

/-- A read that sends nothing fails with the URL of the path. -/
theorem read_of_send_error {e : TransportError} (h : (c.readOrder path).send peer = ⟨[], .error e⟩) :
    (c.read path peer).requests = [] ∧
      ∃ message, (c.read path peer).result = .error (.requestFailed (c.secretUrl path) message) := by
  refine ⟨?_, _, read_of_unanswered (by rw [h])⟩
  rw [(carries_read c path peer).requests, h]

/-- A read with a token that no header can hold, or to an address with another scheme, sends
nothing. -/
theorem read_unsent (h : headerHolds c.token = false ∨
    (c.base.isHttp = false ∧ ∃ address, Url.parse address = .ok c.base)) :
    (c.read path peer).requests = [] ∧
      ∃ message, (c.read path peer).result = .error (.requestFailed (c.secretUrl path) message) := by
  rcases h with hheld | ⟨hhttp, address, hparse⟩
  · obtain ⟨e, he⟩ := Http.Order.send_of_not_held (o := c.readOrder path) rfl hheld peer
    exact read_of_send_error he
  · obtain ⟨e, he⟩ := Http.Order.send_of_not_http (o := c.readOrder path) (fun u hu => by
      rw [Url.isHttp, secretUrl_scheme hparse hu]
      exact hhttp) peer
    exact read_of_send_error he

/-! ## What decides -/

/-- Two reads from one address that end in the same replies have the same result, or both fail for
want of a reply. -/
theorem read_congr {c' : Client} {peer' : Http.Peer} (hbase : c'.base = c.base)
    (hfinal : ∀ reply, (c'.readOrder path).FinalReply peer' reply ↔
      (c.readOrder path).FinalReply peer reply) :
    (c'.read path peer').result = (c.read path peer).result ∨
      (∃ m, (c'.read path peer').result = .error (.requestFailed (c.secretUrl path) m)) ∧
      ∃ m, (c.read path peer).result = .error (.requestFailed (c.secretUrl path) m) := by
  have hurl : c'.secretUrl path = c.secretUrl path := by
    unfold secretUrl endpoint
    rw [hbase]
  cases hsend : ((c.readOrder path).send peer).result with
  | ok reply =>
    have hreply := Http.Order.send_result_eq_ok_iff.mp hsend
    rw [read_of_final hreply, read_of_final ((hfinal reply).mpr hreply), hurl]
    exact Or.inl rfl
  | error e =>
    -- no reply on one side, so none on the other: only what is said of it may differ
    cases hsend' : ((c'.readOrder path).send peer').result with
    | ok reply =>
      have hreply := (hfinal reply).mp (Http.Order.send_result_eq_ok_iff.mp hsend')
      rw [Http.Order.send_result_eq_ok_iff.mpr hreply] at hsend
      cases hsend
    | error e' =>
      rw [← hurl, read_eq_iff.mpr (.unanswered hsend'), hurl,
        read_eq_iff.mpr (.unanswered hsend)]
      exact Or.inr ⟨⟨_, rfl⟩, _, rfl⟩

/-- **The complete outcome of a read.** With status 200 the final reply has the secret, an object
without it, or no object as its body; it may have another status; and the request fails if there is no
final reply or its body is cut. All failures name the URL of the path. A token that no header holds is
never sent, and nothing goes to a base that is not HTTP. Beyond the base and the final reply, nothing
decides. -/
theorem read_outcome (c : Client) (path : String) (peer : Http.Peer) :
    (∀ data, (c.read path peer).result = .ok data ↔
      ∃ reply bytes listed v, (c.readOrder path).FinalReply peer reply ∧ reply.status = 200 ∧
        reply.body = .complete bytes ∧ Json.decode Json.listedReader (bodyText bytes) = .ok listed ∧
        listed.reverse.lookup "data" = some v ∧ data = v.text) ∧
    (∀ url body, (c.read path peer).result = .error (.dataMissing url body) ↔
      url = c.secretUrl path ∧
      ∃ reply bytes listed, (c.readOrder path).FinalReply peer reply ∧ reply.status = 200 ∧
        reply.body = .complete bytes ∧ body = bodyText bytes ∧
        Json.decode Json.listedReader body = .ok listed ∧ listed.reverse.lookup "data" = none) ∧
    (∀ url message, (c.read path peer).result = .error (.bodyInvalid url message) ↔
      url = c.secretUrl path ∧
      ∃ reply bytes e, (c.readOrder path).FinalReply peer reply ∧ reply.status = 200 ∧
        reply.body = .complete bytes ∧
        Json.decode Json.listedReader (bodyText bytes) = .error e ∧ message = e.message) ∧
    (∀ status url body, (c.read path peer).result = .error (.unexpectedStatus status url body) ↔
      url = c.secretUrl path ∧
      ∃ reply bytes, (c.readOrder path).FinalReply peer reply ∧ reply.status = status ∧
        status ≠ 200 ∧ reply.body = .complete bytes ∧ body = bodyText bytes) ∧
    ((∃ url message, (c.read path peer).result = .error (.requestFailed url message)) ↔
      ∀ reply, (c.readOrder path).FinalReply peer reply → reply.body = .cut) ∧
    (∀ f, (c.read path peer).result = .error f →
      (∃ body, f = .dataMissing (c.secretUrl path) body) ∨
      (∃ message, f = .bodyInvalid (c.secretUrl path) message) ∨
      (∃ status body, f = .unexpectedStatus status (c.secretUrl path) body) ∨
      ∃ message, f = .requestFailed (c.secretUrl path) message) ∧
    (headerHolds c.token = false ∨
        (c.base.isHttp = false ∧ ∃ address, Url.parse address = .ok c.base) →
      (c.read path peer).requests = [] ∧
        ∃ message, (c.read path peer).result = .error (.requestFailed (c.secretUrl path) message)) ∧
    (∀ (c' : Client) peer', c'.base = c.base →
      (∀ reply, (c'.readOrder path).FinalReply peer' reply ↔
        (c.readOrder path).FinalReply peer reply) →
      (c'.read path peer').result = (c.read path peer).result ∨
        (∃ m, (c'.read path peer').result = .error (.requestFailed (c.secretUrl path) m)) ∧
        ∃ m, (c.read path peer).result = .error (.requestFailed (c.secretUrl path) m)) := by
  refine ⟨?_, ?_, ?_, ?_, read_requestFailed_iff, ?_, read_unsent, ?_⟩
  · intro data
    exact read_ok_iff
  · intro url body
    exact read_dataMissing_iff
  · intro url message
    exact read_bodyInvalid_iff
  · intro status url body
    exact read_unexpectedStatus_iff
  · intro f hf
    exact read_error hf
  · intro c' peer' hbase hfinal
    exact read_congr hbase hfinal

/-- A peer that answers with the status 200 and a body. -/
def bodyPeer (bytes : List UInt8) : Http.Peer where
  script := [.reply { status := 200, sent := .complete bytes }]

theorem finalReply_bodyPeer (bytes : List UInt8) :
    (exampleClient.readOrder "a").FinalReply (bodyPeer bytes)
      { status := 200, sent := .complete bytes } :=
  ⟨_, rfl, .final rfl rfl rfl⟩

end Client

end SecretClient
