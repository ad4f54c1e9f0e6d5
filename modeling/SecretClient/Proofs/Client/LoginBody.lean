import SecretClient.Proofs.Client.Token
import SecretClient.Proofs.Http.Requests
import SecretClient.Proofs.Json.Canonical

/-!
# The body of a login

A login sends its two credentials as the text of an object. Whatever they hold, quotes and braces too, the
text lists these two members and no others, the object ends where the text does, and other credentials
have another text.

* `body_of_post` : what a login sends with POST
* `members_of_loginBody`, `listed_of_loginBody` : what the text says, and that it says nothing else
* `login_body_exact` : the body of a login carries its credentials and nothing else
-/

namespace SecretClient

open Json (Grammar KeysOrdered Value)

namespace AppId

/-- The credentials as members of an object. -/
def loginMembers (a : AppId) : List (String × Value) :=
  [("app_id", .string a.appId), ("user_id", .string a.userId)]

variable (a : AppId)

/-! ## The text -/

theorem loginBody_eq_text : a.loginBody = (Value.object a.loginMembers).text := rfl

theorem toList_loginBody : a.loginBody.toList = (Value.object a.loginMembers).chars :=
  String.toList_ofList

theorem keysOrdered_loginMembers : KeysOrdered a.loginMembers := by
  have hkeys : "app_id" < "user_id" := by decide
  exact List.pairwise_pair.mpr hkeys

theorem fits_of_mem_loginMembers (d : Nat) : ∀ m ∈ a.loginMembers, m.2.Fits d :=
  List.forall_mem_cons.mpr ⟨.string _, List.forall_mem_singleton.mpr (.string _)⟩

theorem not_hasFloat_of_mem_loginMembers : ∀ m ∈ a.loginMembers, ¬ m.2.HasFloat :=
  List.forall_mem_cons.mpr ⟨nofun, List.forall_mem_singleton.mpr nofun⟩

/-- The credentials fit every depth that leaves room for an object. -/
theorem fits_object_loginMembers (d : Nat) : (Value.object a.loginMembers).Fits (d + 1) :=
  .object a.keysOrdered_loginMembers (a.fits_of_mem_loginMembers d)

theorem not_hasFloat_object_loginMembers : ¬ (Value.object a.loginMembers).HasFloat := by
  intro h
  cases h with
  | member hm hfloat => exact a.not_hasFloat_of_mem_loginMembers _ hm hfloat

/-- **The text is read as the two credentials.** -/
theorem parse_loginBody : Json.parse a.loginBody = .ok (.object a.loginMembers) := by
  rw [loginBody_eq_text]
  exact Json.parse_text (a.fits_object_loginMembers _) a.not_hasFloat_object_loginMembers

variable {a}

/-- **The text begins with no other object**, and with none that ends before it. -/
theorem members_of_loginBody {d : Nat} {text rest : List Char} {members : List (String × Value)}
    (htext : a.loginBody.toList = text ++ rest)
    (h : (Grammar.json Json.Literal.float?).Denotes d text (.object members)) :
    members = a.loginMembers ∧ rest = [] := by
  cases d with
  | zero => cases h
  | succ d =>
    have hbody := Json.json_denotes_chars (a.fits_object_loginMembers d)
      a.not_hasFloat_object_loginMembers
    rw [← toList_loginBody] at hbody
    refine Json.object_unique h hbody ?_
    rw [List.append_nil, htext]

/-- **Nothing else is listed in the text**, and nothing twice. -/
theorem listed_of_loginBody {d : Nat} {inner : List Char} {listed : List (String × Value)}
    (htext : a.loginBody.toList = '\x7b' :: inner ++ ['\x7d'])
    (h : (Grammar.json Json.Literal.float?).Listed ((Grammar.json Json.Literal.float?).Member
      ((Grammar.json Json.Literal.float?).Denotes d)) inner listed) : listed = a.loginMembers :=
  Json.eq_of_listed_chars (a.fits_of_mem_loginMembers d) a.not_hasFloat_of_mem_loginMembers
    (a.toList_loginBody ▸ htext) h

/-- **Other credentials have another text.** -/
theorem loginBody_eq_iff {b : AppId} :
    b.loginBody = a.loginBody ↔ b.appId = a.appId ∧ b.userId = a.userId := by
  constructor
  · intro h
    have hparse := b.parse_loginBody
    rw [h, a.parse_loginBody] at hparse
    cases b
    cases hparse
    exact ⟨rfl, rfl⟩
  · rintro ⟨happId, huserId⟩
    unfold loginBody
    rw [happId, huserId]

/-! ## The requests -/

/-- **What a login sends with POST is the text of its credentials.** -/
theorem body_of_post {base : Url} {peer : Http.Peer} {q : Http.Request}
    (h : q ∈ (a.login base peer).requests) (hpost : q.method = .post) :
    q.body = some a.loginBody := by
  rw [(Client.carries_appId a base peer).requests] at h
  rcases Http.Order.method_and_body q h with ⟨-, hbody⟩ | ⟨hget, -⟩
  · exact hbody
  · rw [hget] at hpost
    cases hpost

/-- Each login of a run sends the same text. -/
theorem body_of_post_of_run {c : Client} (ha : c.strategy = .appId a)
    {steps : List (Operation × Http.Peer)} {i : Nat} {peer : Http.Peer} {s : Client.Step}
    (h : steps[i]? = some (.login, peer)) (hs : (c.run steps)[i]? = some s) {q : Http.Request}
    (hq : q ∈ s.attempt.requests) (hpost : q.method = .post) : q.body = some a.loginBody := by
  rw [Client.getElem?_run, h] at hs
  cases hs
  generalize hbefore : c.stateAt steps i = before at hq
  have hstrategy : before.strategy = .appId a := by rw [← hbefore, Client.stateAt_strategy, ha]
  have hrequests : (before.perform .login peer).1.requests = (a.login before.base peer).requests := by
    rw [Client.login_requests, hstrategy, Strategy.token]
  rw [hrequests] at hq
  exact body_of_post hq hpost

/-- **The body of a login carries its credentials and nothing else.** All that is sent with POST is one
text, without gaps, which is read as the credentials. None of them end the object before the text does,
make another object of it or add a member, be it one that gives way to another. Other credentials have
another text. -/
theorem login_body_exact (a : AppId) :
    (∀ base peer, ∀ q ∈ (a.login base peer).requests, q.method = .post →
      q.body = some a.loginBody) ∧
    (∀ c : Client, c.strategy = .appId a → ∀ steps (i : Nat) peer s,
      steps[i]? = some (.login, peer) → (c.run steps)[i]? = some s →
      ∀ q ∈ s.attempt.requests, q.method = .post → q.body = some a.loginBody) ∧
    Grammar.compact.Denotes 1 a.loginBody.toList (.object a.loginMembers) ∧
    Json.parse a.loginBody = .ok (.object a.loginMembers) ∧
    (∀ d text rest members, a.loginBody.toList = text ++ rest →
      (Grammar.json Json.Literal.float?).Denotes d text (.object members) →
      members = a.loginMembers ∧ rest = []) ∧
    (∀ d inner listed, a.loginBody.toList = '\x7b' :: inner ++ ['\x7d'] →
      (Grammar.json Json.Literal.float?).Listed ((Grammar.json Json.Literal.float?).Member
        ((Grammar.json Json.Literal.float?).Denotes d)) inner listed →
      listed = a.loginMembers) ∧
    ∀ b : AppId, b.loginBody = a.loginBody ↔ b.appId = a.appId ∧ b.userId = a.userId := by
  refine ⟨fun _ _ _ => body_of_post, fun c ha steps i peer s h hs q => body_of_post_of_run ha h hs,
    ?_, a.parse_loginBody, fun _ _ _ _ => members_of_loginBody,
    fun _ _ _ => listed_of_loginBody, fun _ => loginBody_eq_iff⟩
  rw [toList_loginBody]
  exact Json.denotes_chars (a.fits_object_loginMembers 0)

/-- Credentials that hold the text of a member and the end of an object. -/
def quotingId : AppId := { appId := "a\",\"user_id\":\"root\"\x7d", userId := "u\\" }

/-- What is quoted in credentials stays in them. -/
theorem login_body_exact_quotingId :
    (quotingId.login Client.exampleClient.base {}).requests.map Http.Request.body
      = [some "\x7b\"app_id\":\"a\\\",\\\"user_id\\\":\\\"root\\\"\x7d\",\"user_id\":\"u\\\\\"\x7d"] ∧
    Json.parse quotingId.loginBody = .ok (.object
      [("app_id", .string "a\",\"user_id\":\"root\"\x7d"), ("user_id", .string "u\\")]) := by
  obtain ⟨-, -, -, hparse, -⟩ := login_body_exact quotingId
  exact ⟨by decide +kernel, hparse⟩

end AppId

end SecretClient
