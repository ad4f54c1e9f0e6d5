import SecretClient.Proofs.Client.Origin
import SecretClient.Proofs.SecretPath

/-!
# Where reads go

Every read asks for a path that begins with `/v1` as a text, and dot segments in the path of the secret are
settled behind it. A path with more of them than segments leads out of `/v1`, to any place of the service.

* `inside_api_iff` : which paths of secrets stay inside `/v1`, in the URL of a read and in the request
* `outside_api` : a read that takes the token elsewhere
-/

namespace SecretClient

/-- The path of a URL is `/v1` or begins with `/v1/`. -/
def Url.InsideApi (u : Url) : Prop :=
  pathText u.path = "/v1".toList ∨ "/v1/".toList <+: pathText u.path

instance (u : Url) : Decidable u.InsideApi := by
  unfold Url.InsideApi
  infer_instance

/-- The operation reads the secret at a path. -/
def Operation.Reads (path : String) : Operation → Prop
  | .read p | .readValue p | .readAs _ p => p = path
  | .login | .revoke => False

namespace Url

theorem withPath_eq {address : String} {u : Url} (h : parse address = .ok u)
    (hhttp : u.isHttp = true) (path : String) :
    u.withPath path = { u with path := .rooted (rootedAt .special (stripped path.toList)) } := by
  obtain ⟨a, hwritten, -⟩ := isWritten_of_isHttp h hhttp
  obtain ⟨segments, hpath, -⟩ := hwritten.path
  rw [withPath, hpath, kind_of_isHttp hhttp]

/-- **The URL of a secret** is inside `/v1` exactly if its path stays inside. -/
theorem insideApi_withPath_iff {address : String} {u : Url} (h : parse address = .ok u)
    (hhttp : u.isHttp = true) (path : String) :
    (u.withPath (SecretPath.apiPath path)).InsideApi ↔ SecretPath.StaysInside path := by
  rw [← SecretPath.head?_rootedAt_apiChars, InsideApi, withPath_eq h hhttp, SecretPath.apiPath,
    String.toList_ofList]
  exact Segment.text_begins_iff (Segment.slash_not_mem_of_mem_rootedAt _) (by decide)

/-- The text of a URL with another path is read with this path. -/
theorem path_of_parse_withPath {address : String} {u v : Url} (h : parse address = .ok u)
    (hhttp : u.isHttp = true) {path : String} (hv : parse (u.withPath path).text = .ok v) :
    v.path = (u.withPath path).path := by
  obtain ⟨hread, hunread⟩ := parse_withPath_text h hhttp path
  by_cases hshort : u.HasShortHost
  · cases hv.symm.trans (hread hshort)
    rfl
  · -- the text of such a host is no URL
    cases hv.symm.trans (hunread hshort)

theorem insideApi_of_path_eq {u v : Url} (h : u.path = v.path) : u.InsideApi ↔ v.InsideApi := by
  rw [InsideApi, InsideApi, h]

end Url

namespace Client

variable {c : Client}

theorem order?_of_reads {operation : Operation} {path : String} (h : operation.Reads path) :
    c.order? operation = some (c.readOrder path) := by
  cases operation with
  | read | readValue | readAs =>
    obtain rfl := h
    rfl
  | login | revoke => exact h.elim

/-- The first request of an operation leaves userinfo and fragment out, and the path as it is. -/
theorem path_of_first_request {address : String} (hparse : Url.parse address = .ok c.base)
    (hhttp : c.base.isHttp = true) {operation : Operation} {o : Http.Order} {path : String}
    (ho : c.order? operation = some o) (hurl : o.url = (c.base.withPath path).text)
    {peer : Http.Peer} {q : Http.Request}
    (hq : (c.perform operation peer).1.requests[0]? = some q) :
    q.target.path = (c.base.withPath path).path := by
  rw [(carries_perform ho).requests] at hq
  obtain ⟨u, hu, htarget, -⟩ := first_request ho hq
  rw [hurl] at hu
  rw [← Url.path_of_parse_withPath hparse hhttp hu, htarget]
  split <;> rfl

/-- **Which reads stay inside `/v1`.** The URL of a read and the first request for it are inside exactly if
the path of the secret stays inside. A path without `..` does, and behind `../` every path of the service
is in reach. -/
theorem inside_api_iff {address : String} (hparse : Url.parse address = .ok c.base)
    (hhttp : c.base.isHttp = true) :
    (∀ path u, Url.parse (c.secretUrl path) = .ok u → (u.InsideApi ↔ SecretPath.StaysInside path)) ∧
    (∀ path operation peer q, operation.Reads path →
      (c.perform operation peer).1.requests[0]? = some q →
      (q.target.InsideApi ↔ SecretPath.StaysInside path)) ∧
    (∀ path, (∀ piece ∈ SecretPath.pieces path, Segment.dots? piece ≠ some 2) →
      SecretPath.StaysInside path) ∧
    ∀ path, c.secretUrl ("../" ++ path) = c.endpoint (SecretPath.normalize ("/" ++ path)) := by
  have hurl : ∀ path u, Url.parse (c.secretUrl path) = .ok u →
      (u.InsideApi ↔ SecretPath.StaysInside path) := by
    intro path u hu
    rw [← Url.insideApi_withPath_iff hparse hhttp]
    exact Url.insideApi_of_path_eq (Url.path_of_parse_withPath hparse hhttp hu)
  refine ⟨hurl, fun path operation peer q hreads hq => ?_,
    fun path => SecretPath.staysInside_of_forall, fun path => ?_⟩
  · rw [← Url.insideApi_withPath_iff hparse hhttp]
    exact Url.insideApi_of_path_eq
      (path_of_first_request hparse hhttp (order?_of_reads hreads) rfl hq)
  · rw [secretUrl, endpoint, endpoint, Url.withPath_eq hparse hhttp, Url.withPath_eq hparse hhttp,
      SecretPath.apiPath, SecretPath.normalize, String.toList_ofList, String.toList_ofList,
      SecretPath.rootedAt_apiChars_dotdot]

/-- A path that goes up and down again stays inside. -/
theorem inside_api_exampleClient : Url.parse "http://v/" = .ok exampleClient.base ∧
    exampleClient.base.isHttp = true ∧
    ∃ q, (exampleClient.perform (.read "a/%2E./b") {}).1.requests[0]? = some q ∧
      q.target.InsideApi := by
  have hparse : Url.parse "http://v/" = .ok exampleClient.base := rfl
  have hlength : (exampleClient.perform (.read "a/%2E./b") {}).1.requests.length = 1 := by
    decide +kernel
  have hfirst : (exampleClient.perform (.read "a/%2E./b") {}).1.requests[0]? = some _ :=
    List.getElem?_eq_getElem (by rw [hlength]; decide)
  have hinside := (inside_api_iff hparse rfl).2.1 "a/%2E./b" (.read "a/%2E./b") {} _ rfl hfirst
  exact ⟨hparse, rfl, _, hfirst, hinside.mpr (by decide +kernel)⟩

/-- **A read leads out of `/v1`** and takes the token along. -/
theorem outside_api :
    ∃ s q, (tokenClient.run [(.login, {}), (.read "../sys/health", {})])[1]? = some s ∧
      s.attempt.requests[0]? = some q ∧ q.token = some "t" ∧
      q.url = "http://v/sys/health" ∧ ¬ q.target.InsideApi := by
  have hsent : (((tokenClient.run [(.login, {}), (.read "../sys/health", {})])[1]?.bind
      (·.attempt.requests[0]?)).map fun q => (q.token, q.url, decide q.target.InsideApi))
        = some (some "t", "http://v/sys/health", false) := by
    decide +kernel
  obtain ⟨q, hq, heq⟩ := Option.map_eq_some_iff.mp hsent
  obtain ⟨s, hs, hq⟩ := Option.bind_eq_some_iff.mp hq
  simp only [Prod.mk.injEq] at heq
  obtain ⟨htoken, hurl, hinside⟩ := heq
  exact ⟨s, q, hs, hq, htoken, hurl, of_decide_eq_false hinside⟩

end Client

end SecretClient
