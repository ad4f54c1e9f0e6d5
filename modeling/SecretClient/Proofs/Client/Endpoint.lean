import SecretClient.Proofs.Client.Login
import SecretClient.Proofs.Client.Exchange
import SecretClient.Proofs.Url.LongHost

/-!
# The URL that is reported and the URL that is asked

An operation prints the URL of its path, tells it in its events and failures, and hands it on as a text
that has yet to be read. Over HTTP the text is read as the URL that was printed, whatever the path.

* `reported_url_is_requested` : the text of an endpoint is read as the URL of the endpoint, and what a
  step tells and asks is this URL
* `unread_of_long_host` : the one exception is a host with a label that is too long to be read again:
  then no text of an endpoint is a URL, and nothing is sent
-/

namespace SecretClient

/-- The URL that a failure names. -/
def Failure.url? : Failure → Option String
  | .unexpectedStatus _ url _ | .requestFailed url _ | .bodyInvalid url _ | .dataMissing url _ =>
    some url
  | _ => none

/-- The URL of the request that an event tells of. -/
def Event.url? : Event → Option String
  | .loggingIn url | .reading url | .revocationUnsent url _ | .revocationRefused _ url => some url
  | _ => none

/-- The host of a URL, if it has one, is short enough to be read again. -/
def Url.HasShortHost (u : Url) : Prop := ∀ host, u.host? = some host → host.IsShort

/-! ## Texts of endpoints -/

namespace Url

theorem kind_of_isHttp {u : Url} (h : u.isHttp = true) : u.kind = .special := by
  simp only [isHttp, Bool.or_eq_true, beq_iff_eq] at h
  rw [kind]
  rcases h with h | h <;> (rw [h]; decide)

/-- An address of HTTP is in its written form. -/
theorem isWritten_of_isHttp {address : String} {u : Url} (h : parse address = .ok u)
    (hhttp : u.isHttp = true) : ∃ a, IsWritten u a ∧ a.host.IsRead :=
  isWritten_of_parse h (kind_of_isHttp hhttp)

theorem hasShortHost_iff {u : Url} {a : Authority} (h : IsWritten u a) (hread : a.host.IsRead) :
    u.HasShortHost ↔ a.host.IsShort := by
  have hhost : u.host? = some a.host := by
    rw [host?, h.authority]
    dsimp only
    rw [hread.isEmpty, if_neg Bool.false_ne_true]
  unfold HasShortHost
  rw [hhost]
  simp only [Option.some.injEq, forall_eq']

/-- **The text of a URL with another path is read as this URL**, or is no URL because of the host. -/
theorem parse_withPath_text {address : String} {u : Url} (h : parse address = .ok u)
    (hhttp : u.isHttp = true) (path : String) :
    (u.HasShortHost → parse (u.withPath path).text = .ok (u.withPath path)) ∧
      (¬ u.HasShortHost → parse (u.withPath path).text = .error .badDomainName) := by
  obtain ⟨a, hwritten, hread⟩ := isWritten_of_isHttp h hhttp
  rw [hasShortHost_iff hwritten hread, parse_text (hwritten.withPath path) hread]
  exact ⟨fun hshort => if_pos hshort, fun hlong => if_neg hlong⟩

end Url

/-- A builder with an address and a strategy needs nothing else. -/
theorem Builder.build_of_strategy {b : Builder} {process : Environ} {files : FileSystem}
    {address : String} {strategy : Strategy} {u : Url} (haddress : b.address = some address)
    (hstrategy : b.strategy = some strategy) (hparse : Url.parse address = .ok u) :
    (b.build process files).value = .ok { base := u, strategy, timeout := b.timeout } := by
  have hbase : ∀ env, b.base env = .ok u := by
    intro env
    unfold Builder.base
    rw [haddress, Option.some_or]
    dsimp only
    rw [hparse]
    rfl
  rw [Builder.build_value, hbase, chosenStrategy, hstrategy]
  rfl

/-! ## What an operation tells -/

/-- All URLs that an attempt names are the one that is given. -/
structure Attempt.Names {α : Type} (attempt : Attempt α) (url : String) : Prop where
  events : ∀ e ∈ attempt.events, ∀ named, e.url? = some named → named = url
  failure : ∀ f, attempt.result = .error f → ∀ named, f.url? = some named → named = url

theorem Attempt.Names.map {α β : Type} {attempt : Attempt α} {url : String} (h : attempt.Names url)
    (f : α → β) : (attempt.map f).Names url where
  events := h.events
  failure := by
    intro failure hfailure
    unfold Attempt.map at hfailure
    cases hresult : attempt.result with
    | ok v => rw [hresult] at hfailure; cases hfailure
    | error e =>
      rw [hresult] at hfailure
      cases hfailure
      exact h.failure failure hresult

namespace Client

variable {c : Client} {peer : Http.Peer}

/-- The URL of an order is that of a path of the service. -/
theorem exists_path_of_order? {operation : Operation} {o : Http.Order}
    (h : c.order? operation = some o) : ∃ path, o.url = (c.base.withPath path).text := by
  cases operation with
  | read | readValue | readAs =>
    cases h
    exact ⟨_, rfl⟩
  | login =>
    unfold order? at h
    dsimp only at h
    split at h
    · cases h
      exact ⟨_, rfl⟩
    · cases h
  | revoke =>
    obtain ⟨-, heq⟩ := Option.ite_none_right_eq_some.mp h
    cases heq
    exact ⟨_, rfl⟩

theorem names_read (c : Client) (path : String) (peer : Http.Peer) :
    (c.read path peer).Names (c.secretUrl path) := by
  constructor
  · intro e he named hnamed
    rw [List.mem_singleton.mp he] at hnamed
    exact (Option.some.inj hnamed).symm
  · intro f hf named hnamed
    rcases read_error hf with ⟨body, rfl⟩ | ⟨message, rfl⟩ | ⟨status, body, rfl⟩ | ⟨message, rfl⟩ <;>
      exact (Option.some.inj hnamed).symm

theorem names_readAs {α : Type} (c : Client) (reader : Json.Reader α) (path : String)
    (peer : Http.Peer) : (c.readAs reader path peer).Names (c.secretUrl path) := by
  obtain ⟨hevents, hfailure⟩ := names_read c path peer
  refine ⟨hevents, fun f hf named hnamed => ?_⟩
  unfold readAs at hf
  dsimp only at hf
  cases hread : (c.read path peer).result with
  | error e =>
    rw [hread] at hf
    cases hf
    exact hfailure f hread named hnamed
  | ok data =>
    -- a secret of another shape is a failure without a URL
    rw [hread] at hf
    dsimp only at hf
    cases hdecode : Json.decode reader data with
    | ok v => rw [hdecode] at hf; cases hf
    | error e =>
      rw [hdecode] at hf
      cases hf
      cases hnamed

theorem names_login {a : AppId} (ha : c.strategy = .appId a) (peer : Http.Peer) :
    (c.login peer).1.Names (a.loginUrl c.base).text := by
  constructor
  · intro e he named hnamed
    have hevents : (a.login c.base peer).events = [.loggingIn (a.loginUrl c.base).text] := rfl
    have hmem : e ∈ [Event.loggingIn (a.loginUrl c.base).text,
        .loggedIn c.base.text c.strategy.name] := by
      unfold login at he
      rw [token_of_appId ha] at he
      dsimp only at he
      split at he
      · rw [hevents] at he
        exact List.mem_singleton.mp he ▸ List.mem_cons_self
      · rwa [hevents] at he
    rcases List.mem_cons.mp hmem with rfl | hmem
    · exact (Option.some.inj hnamed).symm
    · -- that a login is done is told of the address, and not of a request
      rw [List.mem_singleton.mp hmem] at hnamed
      cases hnamed
  · intro f hf named hnamed
    rcases AppId.login_error ((login_result_error_iff ha).mp hf) with
      ⟨status, body, rfl⟩ | rfl | ⟨message, rfl⟩
    · exact (Option.some.inj hnamed).symm
    · cases hnamed
    · exact (Option.some.inj hnamed).symm

theorem names_revoke (hr : c.strategy.isRevocable = true) (peer : Http.Peer) :
    (c.revoke peer).1.Names c.revokeOrder.url := by
  unfold revoke
  rw [if_pos hr]
  dsimp only
  split
  · refine ⟨fun e he named hnamed => ?_, fun f hf named hnamed => ?_⟩
    · rw [List.mem_singleton.mp he] at hnamed
      exact (Option.some.inj hnamed).symm
    · cases hf
      exact (Option.some.inj hnamed).symm
  · split
    · refine ⟨fun e he named hnamed => ?_, fun f hf => ?_⟩
      · rw [List.mem_singleton.mp he] at hnamed
        cases hnamed
      · cases hf
    · refine ⟨fun e he named hnamed => ?_, fun f hf named hnamed => ?_⟩
      · rw [List.mem_singleton.mp he] at hnamed
        exact (Option.some.inj hnamed).symm
      · cases hf
        exact (Option.some.inj hnamed).symm

/-- **All URLs that a step names are the one of its order.** -/
theorem names_perform {operation : Operation} {o : Http.Order} (h : c.order? operation = some o)
    (peer : Http.Peer) : (c.perform operation peer).1.Names o.url := by
  cases operation with
  | read path =>
    cases h
    exact (names_read c path peer).map _
  | readValue path =>
    cases h
    exact (names_readAs c secretReader path peer).map _
  | readAs shape path =>
    cases h
    exact (names_readAs c shape.reader path peer).map _
  | login =>
    unfold order? at h
    dsimp only at h
    split at h
    · next a ha =>
      cases h
      rw [perform_login]
      exact (names_login ha peer).map _
    · cases h
  | revoke =>
    obtain ⟨hr, heq⟩ := Option.ite_none_right_eq_some.mp h
    cases heq
    rw [perform_revoke]
    exact (names_revoke hr peer).map _

/-! ## What is reported and what is asked -/

theorem events_of_isRead {operation : Operation} (hread : operation.IsRead) {o : Http.Order}
    (h : c.order? operation = some o) (peer : Http.Peer) :
    (c.perform operation peer).1.events = [.reading o.url] := by
  cases operation with
  | read | readValue | readAs =>
    cases h
    rfl
  | login | revoke => exact hread.elim

/-- **The URL that is reported is the URL that is requested**, for a host that is short enough to be
read again: the texts of all endpoints are read as the URLs that they write, and the URL of its order
is what a step tells, what it names when it fails, and what it asks first. -/
theorem reported_url_is_requested {address : String} (hparse : Url.parse address = .ok c.base)
    (hhttp : c.base.isHttp = true) (hshort : c.base.HasShortHost) :
    (∀ path, Url.parse (c.endpoint path) = .ok (c.base.withPath path)) ∧
    (∀ a : AppId, Url.parse (a.loginUrl c.base).text = .ok (a.loginUrl c.base)) ∧
    ∀ operation peer o, c.order? operation = some o →
      ∃ u, Url.parse o.url = .ok u ∧ u.text = o.url ∧
        (operation.IsRead → (c.perform operation peer).1.events = [.reading o.url]) ∧
        (∀ e ∈ (c.perform operation peer).1.events, ∀ url, e.url? = some url → url = o.url) ∧
        (∀ f, (c.perform operation peer).1.result = .error f →
          ∀ url, f.url? = some url → url = o.url) ∧
        ∀ q, (c.perform operation peer).1.requests[0]? = some q →
          q.target = if (Http.credentials? u).isSome then u.withoutUserinfo else u := by
  have hreread := fun path => (Url.parse_withPath_text hparse hhttp path).1 hshort
  refine ⟨hreread, fun a => hreread _, fun operation peer o ho => ?_⟩
  obtain ⟨path, hurl⟩ := exists_path_of_order? ho
  have hnames := names_perform ho peer
  refine ⟨c.base.withPath path, ?_, hurl.symm, fun hread => events_of_isRead hread ho peer,
    hnames.events, hnames.failure, fun q hq => ?_⟩
  · rw [hurl]
    exact hreread path
  · rw [(carries_perform ho).requests] at hq
    obtain ⟨u, hu, htarget, -⟩ := first_request ho hq
    rw [hurl, hreread path] at hu
    cases hu
    exact htarget

/-- A path of marks, blanks and dots is read again as it was written. -/
theorem reread_exampleClient : Url.parse "http://v/" = .ok exampleClient.base ∧
    exampleClient.base.HasShortHost ∧
    Url.parse (exampleClient.endpoint "/v1/a b?c#d/%2e./\\..\\e@f:g")
      = .ok (exampleClient.base.withPath "/v1/a b?c#d/%2e./\\..\\e@f:g") := by
  have hparse : Url.parse "http://v/" = .ok exampleClient.base := rfl
  have hshort : exampleClient.base.HasShortHost := by
    intro host hhost
    cases hhost
    decide
  exact ⟨hparse, hshort, (reported_url_is_requested hparse rfl hshort).1 _⟩

/-- **With a host that is too long nothing is asked**: no text of an endpoint is a URL, and every
operation that has something to send fails with the URL that it could not read. -/
theorem unread_of_long_host {address : String} (hparse : Url.parse address = .ok c.base)
    (hhttp : c.base.isHttp = true) (hlong : ¬ c.base.HasShortHost) :
    (∀ path, Url.parse (c.endpoint path) = .error .badDomainName) ∧
    ∀ operation peer o, c.order? operation = some o →
      (c.perform operation peer).1.requests = [] ∧
      (c.perform operation peer).1.result = .error (.requestFailed o.url "builder error") := by
  have hunread := fun path => (Url.parse_withPath_text hparse hhttp path).2 hlong
  refine ⟨hunread, fun operation peer o ho => ?_⟩
  obtain ⟨path, hurl⟩ := exists_path_of_order? ho
  have hrequest : o.request = .error (.builder none) := by
    unfold Http.Order.request
    rw [hurl, hunread path]
  have hsend := Http.Order.send_of_request_error hrequest peer
  have hcarries : (c.perform operation peer).1.Carries o peer := carries_perform ho
  refine ⟨?_, hcarries.unanswered (.builder none) (by rw [hsend])⟩
  rw [hcarries.requests, hsend]

/-- A builder with an address of eight hundred ideographs, and a token. -/
def longBuilder : Builder := { address := some longAddress, strategy := some (.static "t") }

/-- The client that it builds. -/
def longClient : Client where
  base := longUrl
  strategy := .static "t"

/-- **An address is accepted and none of its endpoints is a URL**: the host of eight hundred ideographs
is encoded once, and its encoding is too long to be decoded. -/
theorem unread_longClient :
    (longBuilder.build (fun _ => none) (fun _ => .error .notFound)).value = .ok longClient ∧
    longClient.base.scheme = "http" ∧
    Url.parse (longClient.endpoint (SecretPath.apiPath "a")) = .error .badDomainName ∧
    (longClient.perform (.read "a") {}).1.requests = [] ∧
    (longClient.perform (.read "a") {}).1.result
      = .error (.requestFailed (longClient.secretUrl "a") "builder error") := by
  have hbuild : (longBuilder.build (fun _ => none) (fun _ => .error .notFound)).value
      = .ok longClient := Builder.build_of_strategy rfl rfl parse_longAddress
  have hlong : ¬ longClient.base.HasShortHost := fun hshort =>
    not_isShort_longName (hshort (.name longName) host?_longUrl)
  have hhttp : longClient.base.isHttp = true := by decide
  have horder : longClient.order? (.read "a") = some (longClient.readOrder "a") := rfl
  obtain ⟨hunread, hasked⟩ := unread_of_long_host parse_longAddress hhttp hlong
  refine ⟨hbuild, rfl, hunread (SecretPath.apiPath "a"), ?_⟩
  exact hasked (.read "a") {} (longClient.readOrder "a") horder

end Client

end SecretClient
