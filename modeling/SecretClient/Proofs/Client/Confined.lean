import SecretClient.Proofs.Client.Endpoint

/-!
# Paths and mounts stay in the path

The text that an operation asks for is the address of the client with another path: whatever the path
of a secret or the mount of a login holds, it changes nothing in front of the path and nothing behind
it, neither in the text nor for the one who reads the text.

* `confined_to_path` : the texts of all endpoints are confined to the path, and the path of the address
  makes no difference
-/

namespace SecretClient

namespace Url

/-! ## URLs that differ in the path -/

/-- Two URLs are the same but for the path. -/
structure SameButPath (u v : Url) : Prop where
  scheme : u.scheme = v.scheme
  authority : u.authority = v.authority
  query : u.query = v.query
  fragment : u.fragment = v.fragment

theorem sameButPath_withPath (u : Url) (path : String) : (u.withPath path).SameButPath u := by
  unfold withPath
  split <;> exact ⟨rfl, rfl, rfl, rfl⟩

/-- **The path that is replaced makes no difference.** -/
theorem SameButPath.withPath_eq {u v : Url} {a b : Authority} (h : u.SameButPath v)
    (hu : IsWritten u a) (hv : IsWritten v b) (path : String) : u.withPath path = v.withPath path := by
  obtain ⟨segments, hpath, -, -⟩ := hu.path
  obtain ⟨segments', hpath', -, -⟩ := hv.path
  have hguarded : u.guarded = v.guarded := hu.guarded.trans hv.guarded.symm
  obtain ⟨scheme, authority, guarded, pathOf, query, fragment⟩ := u
  obtain ⟨scheme', authority', guarded', pathOf', query', fragment'⟩ := v
  obtain ⟨rfl, rfl, rfl, rfl⟩ := h
  cases hpath
  cases hpath'
  cases hguarded
  rfl

/-! ## The text around the path -/

/-- What stands in front of the path in the text of a URL. -/
def beforePath (u : Url) : List Char := u.scheme.toList ++ ':' :: authorityText u.authority

/-- What stands behind the path in the text of a URL. -/
def behindPath (u : Url) : List Char := markedText '?' u.query ++ markedText '#' u.fragment

theorem SameButPath.beforePath {u v : Url} (h : u.SameButPath v) : u.beforePath = v.beforePath := by
  unfold Url.beforePath
  rw [h.scheme, h.authority]

theorem SameButPath.behindPath {u v : Url} (h : u.SameButPath v) : u.behindPath = v.behindPath := by
  unfold Url.behindPath
  rw [h.query, h.fragment]

theorem chars_eq_around {u : Url} (h : u.guarded = false) :
    u.chars = u.beforePath ++ pathText u.path ++ u.behindPath := by
  unfold chars beforePath behindPath
  rw [h]
  simp [List.append_assoc]

/-- The text of a URL with another path has this path in the place of its own. -/
theorem text_withPath {address : String} {u : Url} (h : parse address = .ok u)
    (hhttp : u.isHttp = true) (path : String) :
    (u.withPath path).text
      = String.ofList (u.beforePath ++ pathText (u.withPath path).path ++ u.behindPath) := by
  obtain ⟨a, hwritten, -⟩ := isWritten_of_isHttp h hhttp
  have hsame := sameButPath_withPath u path
  rw [text, chars_eq_around (hwritten.withPath path).guarded, hsame.beforePath, hsame.behindPath]

/-- A text is a URL with another path, however one looks at it. -/
structure Confines (u : Url) (text : String) : Prop where
  /-- It is the text of a URL with all other parts. -/
  written : ∃ v : Url, v.SameButPath u ∧ text = v.text
  /-- It has a path in the place of the path, which does not end before what stands behind it. -/
  framed : ∃ path, path.head? = some '/' ∧ (∀ c ∈ path, c ∉ ['?', '#']) ∧
    text = String.ofList (u.beforePath ++ path ++ u.behindPath)
  /-- It is read as a URL with all other parts, if it is read. -/
  reread : ∀ v, parse text = .ok v → v.SameButPath u ∧ v.text = text

theorem head?_segmentText {segments : List (List Char)} (h : segments ≠ []) :
    (Segment.text segments).head? = some '/' := by
  obtain ⟨s, segments, rfl⟩ := List.exists_cons_of_ne_nil h
  rfl

/-- **The text of a URL with another path is confined to the path.** -/
theorem confines_withPath {address : String} {u : Url} (h : parse address = .ok u)
    (hhttp : u.isHttp = true) (path : String) : u.Confines (u.withPath path).text where
  written := ⟨_, sameButPath_withPath u path, rfl⟩
  framed := by
    obtain ⟨a, hwritten, -⟩ := isWritten_of_isHttp h hhttp
    obtain ⟨segments, heq, hne, hsegments⟩ := (hwritten.withPath path).path
    refine ⟨Segment.text segments, head?_segmentText hne, fun c hc => ?_, ?_⟩
    · exact (plain_of_mem_pathText hsegments c hc).2
    · rw [text_withPath h hhttp, heq]
      rfl
  reread := by
    intro v hv
    obtain ⟨hread, hunread⟩ := parse_withPath_text h hhttp path
    by_cases hshort : u.HasShortHost
    · rw [hread hshort] at hv
      cases hv
      exact ⟨sameButPath_withPath u path, rfl⟩
    · rw [hunread hshort] at hv
      cases hv

end Url

/-! ## Endpoints -/

namespace Client

variable {c : Client}

/-- Operations of clients with the same orders send the same requests. -/
theorem requests_eq_of_order? {c c' : Client} {operation : Operation}
    (h : c.order? operation = c'.order? operation) (peer : Http.Peer) :
    (c.perform operation peer).1.requests = (c'.perform operation peer).1.requests := by
  cases ho : c.order? operation with
  | none => rw [requests_of_order?_none ho, requests_of_order?_none (h ▸ ho)]
  | some o => rw [(carries_perform ho).requests, (carries_perform (h ▸ ho)).requests]

/-- The orders of a client depend on its address by the URLs of paths only. -/
theorem order?_eq_of_withPath {u : Url} (h : ∀ path, u.withPath path = c.base.withPath path)
    (operation : Operation) : ({ c with base := u } : Client).order? operation = c.order? operation := by
  cases operation with
  | read | readValue | readAs => simp only [order?, readOrder, endpoint, h]
  | login => simp only [order?, AppId.loginOrder, AppId.loginUrl, h]
  | revoke => simp only [order?, revokeOrder, endpoint, h]

/-- **Paths and mounts stay in the path.** The text of every endpoint and of every login is confined to
the path of the address, and with it the URL of every operation. An address that differs in its path
leads to the same orders, and to the same requests. -/
theorem confined_to_path {address : String} (hparse : Url.parse address = .ok c.base)
    (hhttp : c.base.isHttp = true) :
    (∀ path, c.base.Confines (c.endpoint path)) ∧
    (∀ a : AppId, c.base.Confines (a.loginUrl c.base).text) ∧
    (∀ operation o, c.order? operation = some o → c.base.Confines o.url) ∧
    ∀ other u, Url.parse other = .ok u → u.SameButPath c.base → ∀ operation,
      ({ c with base := u } : Client).order? operation = c.order? operation ∧
      ∀ peer, (({ c with base := u } : Client).perform operation peer).1.requests
        = (c.perform operation peer).1.requests := by
  have hconfines := Url.confines_withPath hparse hhttp
  refine ⟨hconfines, fun a => hconfines _, fun operation o ho => ?_,
    fun other u hother hsame operation => ?_⟩
  · obtain ⟨path, hurl⟩ := exists_path_of_order? ho
    rw [hurl]
    exact hconfines path
  · have hhttp' : u.isHttp = true := by
      rw [← hhttp, Url.isHttp, Url.isHttp, hsame.scheme]
    obtain ⟨a, hwritten, -⟩ := Url.isWritten_of_isHttp hparse hhttp
    obtain ⟨b, hwritten', -⟩ := Url.isWritten_of_isHttp hother hhttp'
    have horder := order?_eq_of_withPath (hsame.withPath_eq hwritten' hwritten) operation
    exact ⟨horder, requests_eq_of_order? horder⟩

/-- A client whose address has all the parts that a URL can have. -/
def partsClient : Client where
  base :=
    { scheme := "http"
      authority := some
        { username := ['u'], password := ['p'], host := .name ['v'], port := some 8200 }
      path := .rooted [['x', 'y']], query := some ['q'], fragment := some ['f'] }
  strategy := .static "t"

/-- No mark of a path ends it, and no dots lead out of it. -/
theorem confined_partsClient : Url.parse "http://u:p@v:8200/x/../xy?q#f" = .ok partsClient.base ∧
    partsClient.base.Confines (partsClient.secretUrl "?x=1#y/@w:1//../../..\\%2E%2e/é\n") := by
  have hparse : Url.parse "http://u:p@v:8200/x/../xy?q#f" = .ok partsClient.base := by rfl
  exact ⟨hparse, (confined_to_path hparse rfl).1 _⟩

end Client

end SecretClient
