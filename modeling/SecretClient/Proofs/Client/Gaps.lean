import SecretClient.Proofs.Client.WirePath
import SecretClient.Proofs.Strategy
import SecretClient.Proofs.Url.Gap

/-!
# Empty segments on the wire

Runs of slashes are collapsed in the text of a path, and slashes are taken from the ends of a mount, before
the text is read as a URL. The reader of URLs has slashes of its own: it cuts at backslashes too, and drops
tabs and line ends from between slashes. And a mount of nothing but slashes is empty.

* `doubled_slashes_iff` : when two slashes stand next to each other in the path of a read or a login
* `doubled_slashes` : a login with a mount of one slash, and reads, for which they do
-/

namespace SecretClient

open Blank (Bare Trimmed)
open Segment (Doubled LeavesGap)

/-! ## Pieces of plain texts -/

namespace SecretPath

/-- A plain path leaves no gap: its pieces are those of a text without slashes next to each other. -/
theorem not_leavesGap_pieces {path : String} (h : IsPlain path.toList) : ¬ LeavesGap (pieces path) := by
  have hdoubled := not_doubled_apiChars path
  rw [apiChars_of_isPlain h, Segment.doubled_text_iff slash_not_mem_of_mem_pieces] at hdoubled
  rw [← Segment.leavesGap_cons_of_ne_nil (by decide : api ≠ [])]
  exact Segment.not_leavesGap_of_not_mem hdoubled

end SecretPath

/-! ## Logins -/

namespace AppId

variable {a : AppId}

/-- The name of the place of all logins, and that of a login. -/
def auth : List Char := ['a', 'u', 't', 'h']

@[inherit_doc auth]
def loginName : List Char := ['l', 'o', 'g', 'i', 'n']

/-- The path of the URL of the login. -/
def loginPath (a : AppId) (base : Url) : List Char := Url.pathText (a.loginUrl base).path

/-- The pieces of the path of a login behind `/v1/auth`. -/
def loginPieces (a : AppId) : List (List Char) := SecretPath.piecesOf a.mount.toList ++ [loginName]

/-- **When two slashes of the path of a login stand next to each other.** -/
theorem doubled_loginPath_iff {address : String} {base : Url} (hparse : Url.parse address = .ok base)
    (hhttp : base.isHttp = true) (a : AppId) :
    Doubled (a.loginPath base) ↔ LeavesGap a.loginPieces := by
  have hpath : ("/v1/auth/" ++ a.mount ++ "/login").toList
      = '/' :: (SecretPath.api ++ '/' :: (auth ++ '/' :: (a.mount.toList ++ '/' :: loginName))) := by
    simp [String.toList_append, SecretPath.api, auth, loginName]
  have hpieces : SecretPath.piecesOf
      (SecretPath.api ++ '/' :: (auth ++ '/' :: (a.mount.toList ++ '/' :: loginName)))
        = SecretPath.api :: auth :: a.loginPieces := by
    rw [SecretPath.piecesOf_append, SecretPath.piecesOf_append, SecretPath.piecesOf_append]
    rfl
  have hread := SecretPath.rootedAt_slash
    (SecretPath.api ++ '/' :: (auth ++ '/' :: (a.mount.toList ++ '/' :: loginName)))
  rw [hpieces] at hread
  have hgap := Segment.doubled_read_iff hread (Segment.slash_not_mem_of_mem_rootedAt _)
    List.not_mem_nil
  rw [Segment.leavesGap_cons_of_ne_nil (by decide), Segment.leavesGap_cons_of_ne_nil (by decide)]
    at hgap
  rw [← hgap, ← hpath, loginPath, loginUrl, Url.withPath_eq hparse hhttp]
  rfl

/-- The mount of a variable without the characters that a reader of URLs changes, and without two slashes
next to each other, leaves a gap exactly if the variable is one slash. -/
theorem leavesGap_loginPieces_iff {given : String} (hne : given ≠ "")
    (htrimmed : Trimmed (· == '/') given.toList a.mount.toList)
    (hplain : SecretPath.IsPlain given.toList) (hdoubled : ¬ Doubled given.toList) :
    LeavesGap a.loginPieces ↔ given = "/" := by
  obtain ⟨before, after, hgiven, hbefore, hafter, hbare⟩ := htrimmed.exists_around
  by_cases hmount : a.mount.toList = []
  · -- the variable has slashes only, so it is one of them
    have hslash : given.toList = ['/'] := by
      refine Segment.eq_slash (fun hnil => hne (String.toList_inj.mp hnil)) (fun c hc => ?_) hdoubled
      rw [hgiven, hmount, List.append_nil, List.mem_append] at hc
      rcases hc with hc | hc
      · exact beq_iff_eq.mp (hbefore c hc)
      · exact beq_iff_eq.mp (hafter c hc)
    have hgap : LeavesGap a.loginPieces := by
      rw [loginPieces, hmount]
      decide
    exact ⟨fun _ => String.toList_inj.mp hslash, fun _ => hgap⟩
  · have hwithin : a.mount.toList <:+: given.toList := ⟨before, after, hgiven.symm⟩
    have hnone : [] ∉ a.mount.toList.splitOn '/' := by
      refine Segment.nil_not_mem_splitOn hmount (fun hfirst => ?_) (fun hlast => ?_) fun hmem => ?_
      · exact absurd (hbare.first '/' hfirst) (by decide)
      · exact absurd (hbare.last '/' hlast) (by decide)
      · exact hdoubled (hmem.trans hwithin)
    have hgap : ¬ LeavesGap a.loginPieces := by
      refine Segment.not_leavesGap_of_not_mem ?_
      rw [loginPieces, List.dropLast_concat,
        SecretPath.piecesOf_of_isPlain fun c hc => hplain c (hwithin.subset hc)]
      exact hnone
    refine ⟨fun h => absurd h hgap, ?_⟩
    rintro rfl
    rw [← Blank.trimWhile_eq_iff] at htrimmed
    exact absurd htrimmed.symm hmount

section

variable {env : Environ} (hmounts : env.Mounts a.mount)
include hmounts

/-- The mount that is used for want of a variable leaves none. -/
theorem not_leavesGap_of_lacks (h : env.Lacks "VAULT_AUTH_APP_ID_MOUNT") :
    ¬ LeavesGap a.loginPieces := by
  generalize hname : a.mount = mount at hmounts
  cases hmounts with
  | given hset hne => exact absurd (h _ hset) hne
  | default =>
    rw [loginPieces, hname]
    decide +kernel

theorem leavesGap_iff_of_given {given : String}
    (hgiven : env "VAULT_AUTH_APP_ID_MOUNT" = some given) (hne : given ≠ "")
    (hplain : SecretPath.IsPlain given.toList) (hdoubled : ¬ Doubled given.toList) :
    LeavesGap a.loginPieces ↔ given = "/" := by
  generalize hname : a.mount = mount at hmounts
  cases hmounts with
  | given hset _ htrimmed =>
    cases hgiven.symm.trans hset
    exact leavesGap_loginPieces_iff hne (hname ▸ htrimmed) hplain hdoubled
  | default hlacks => exact absurd (hlacks _ hgiven) hne

end

end AppId

/-! ## Slashes next to each other -/

namespace Client

variable {c : Client}

/-- **When two slashes stand next to each other on the wire.** The text of the path of a secret never has
them. Its URL and the first request for it do exactly if the pieces of the path leave a gap, and likewise
those of a login. A path without the characters that a reader of URLs changes leaves none, and a mount
without them exactly if the variable is one slash. -/
theorem doubled_slashes_iff {address : String} (hparse : Url.parse address = .ok c.base)
    (hhttp : c.base.isHttp = true) :
    (∀ path, ¬ Doubled (SecretPath.apiPath path).toList) ∧
    (∀ path u, Url.parse (c.secretUrl path) = .ok u →
      (Doubled (Url.pathText u.path) ↔ LeavesGap (SecretPath.pieces path))) ∧
    (∀ path operation peer q, operation.Reads path →
      (c.perform operation peer).1.requests[0]? = some q →
      (Doubled (Url.pathText q.target.path) ↔ LeavesGap (SecretPath.pieces path))) ∧
    (∀ path, SecretPath.IsPlain path.toList → ¬ LeavesGap (SecretPath.pieces path)) ∧
    (∀ a : AppId, Doubled (Url.pathText (a.loginUrl c.base).path) ↔ LeavesGap a.loginPieces) ∧
    (∀ a peer q, c.strategy = .appId a → (c.perform .login peer).1.requests[0]? = some q →
      (Doubled (Url.pathText q.target.path) ↔ LeavesGap a.loginPieces)) ∧
    ∀ env files a, (Strategy.select env files).value = .ok (.appId a) →
      (env.Lacks "VAULT_AUTH_APP_ID_MOUNT" → ¬ LeavesGap a.loginPieces) ∧
      ∀ given, env "VAULT_AUTH_APP_ID_MOUNT" = some given → given ≠ "" →
        SecretPath.IsPlain given.toList → ¬ Doubled given.toList →
        (LeavesGap a.loginPieces ↔ given = "/") := by
  have hread : ∀ path, Doubled (c.wirePath path) ↔ LeavesGap (SecretPath.pieces path) := by
    intro path
    rw [wirePath_eq hparse hhttp]
    exact Segment.doubled_read_iff (SecretPath.rootedAt_apiChars path)
      (Segment.slash_not_mem_of_mem_rootedAt _) (by decide)
  have hlogin := fun a => AppId.doubled_loginPath_iff hparse hhttp a
  refine ⟨fun path => ?_, fun path u hu => ?_, fun path operation peer q hreads hq => ?_,
    fun path => SecretPath.not_leavesGap_pieces, hlogin, fun a peer q ha hq => ?_,
    fun env files a hselect => ?_⟩
  · rw [SecretPath.apiPath, String.toList_ofList]
    exact SecretPath.not_doubled_apiChars path
  · rw [wirePath_of_parse hparse hhttp hu]
    exact hread path
  · rw [wirePath_of_first hparse hhttp hreads hq]
    exact hread path
  · have ho : c.order? .login = some (a.loginOrder c.base) := by rw [order?, ha]
    rw [path_of_first_request hparse hhttp ho rfl hq]
    exact hlogin a
  · obtain ⟨-, -, hmounts⟩ := (AppId.select_value_iff a).mp (Strategy.select_eq_appId_iff.mp hselect)
    exact ⟨AppId.not_leavesGap_of_lacks hmounts, fun given => AppId.leavesGap_iff_of_given hmounts⟩

/-- An environment with credentials and a mount. -/
def mountEnviron (mount : String) : Environ :=
  .ofList [("VAULT_APP_ID", "a"), ("VAULT_USER_ID", "u"), ("VAULT_AUTH_APP_ID_MOUNT", mount)]

/-- The slash behind a mount is taken away, and the path of the login has no gap. -/
theorem doubled_slashes_exampleClient : Url.parse "http://v/" = .ok exampleClient.base ∧
    exampleClient.base.isHttp = true ∧
    ¬ Doubled (Url.pathText (AppId.loginUrl ⟨"a", "u", "kv/apps"⟩ exampleClient.base).path) := by
  have hparse : Url.parse "http://v/" = .ok exampleClient.base := rfl
  obtain ⟨-, -, -, -, hlogin, -, hmount⟩ := doubled_slashes_iff hparse rfl
  have hselect : (Strategy.select (mountEnviron "/kv/apps/") fun _ => .error .notFound).value
      = .ok (.appId ⟨"a", "u", "kv/apps"⟩) := by
    rw [Strategy.select_eq_appId_iff]
    decide +kernel
  have hset : mountEnviron "/kv/apps/" "VAULT_AUTH_APP_ID_MOUNT" = some "/kv/apps/" := by
    decide +kernel
  have hgap := (hmount _ _ _ hselect).2 "/kv/apps/" hset (by decide) (by decide +kernel)
    (by decide +kernel)
  rw [hlogin, hgap]
  exact ⟨hparse, rfl, by decide⟩

/-- **Two slashes stand next to each other** on the wire for a mount of one slash, of which nothing is left,
and for reads of paths that have no two slashes next to each other before they are read as a URL. -/
theorem doubled_slashes :
    (¬ Doubled "/".toList ∧ ∃ a,
      (Strategy.select (mountEnviron "/") fun _ => .error .notFound).value = .ok (.appId a) ∧
      ({ exampleClient with strategy := .appId a }.perform .login {}).1.requests.map
        Http.Request.url = ["http://v/v1/auth//login"]) ∧
    (¬ Doubled "a/\t/b".toList ∧
      (exampleClient.perform (.read "a/\t/b") {}).1.requests.map Http.Request.url
        = ["http://v/v1/a//b"]) ∧
    ¬ Doubled "a\\\\b".toList ∧
      (exampleClient.perform (.read "a\\\\b") {}).1.requests.map Http.Request.url
        = ["http://v/v1/a//b"] := by
  have hselect : (Strategy.select (mountEnviron "/") fun _ => .error .notFound).value
      = .ok (.appId ⟨"a", "u", ""⟩) := by
    rw [Strategy.select_eq_appId_iff]
    decide +kernel
  refine ⟨⟨?_, _, hselect, ?_⟩, ⟨?_, ?_⟩, ?_, ?_⟩ <;> decide +kernel

end Client

end SecretClient
