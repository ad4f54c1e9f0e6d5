import SecretClient.Proofs.Client.Login

/-!
# Login replies as values

The token of a login reply is looked for while the body is read, and most of the body is passed
without being kept. Where the body can be read as a value, the token is the one that stands in the
value.

* `AppId.token?_value` : the token of a body, by the value of the body. A field that is repeated gives
  no token, and other members make no difference
-/

namespace SecretClient.AppId

open Json (Tree Value)

variable {bytes : List UInt8} {o : Tree}

theorem isLoginReply_iff (h : Json.whole Json.tree (Utf8.items bytes) = .ok o) {token : String} :
    IsLoginReply bytes token ↔
      ∃ auth, o.Field "auth" auth ∧ auth.Field "client_token" (.string (some token)) := by
  unfold IsLoginReply
  simp only [h, Except.ok.injEq]
  constructor
  · rintro ⟨_, auth, rfl, hauth, htoken⟩
    exact ⟨auth, hauth, htoken⟩
  · rintro ⟨auth, hauth, htoken⟩
    exact ⟨o, auth, rfl, hauth, htoken⟩

/-- Some field on the way to the token is repeated. -/
def RepeatsField (o : Tree) : Prop :=
  o.Repeats "auth" ∨ ∃ auth, o.Field "auth" auth ∧ auth.Repeats "client_token"

/-- **A body that repeats a field gives no token.** -/
theorem token?_of_repeatsField (h : Json.whole Json.tree (Utf8.items bytes) = .ok o)
    (hrepeats : RepeatsField o) : token? bytes = none := by
  refine token?_eq_none_iff.mpr fun token hlogin => ?_
  obtain ⟨auth, hauth, htoken⟩ := (isLoginReply_iff h).mp hlogin
  rcases hrepeats with hrepeats | ⟨auth', hauth', hrepeats⟩
  · exact hrepeats.not_field hauth
  · cases hauth.unique hauth'
    exact hrepeats.not_field htoken

/-- **The token of a body that repeats no field is the one in its value.** -/
theorem token?_eq_some_iff_value {v : Value} (h : Json.whole Json.tree (Utf8.items bytes) = .ok o)
    (hv : o.value? Json.maxDepth = some v) (honce : ¬ RepeatsField o) (token : String) :
    token? bytes = some token ↔
      ∃ auth, v.Field "auth" auth ∧ auth.Field "client_token" (.string token) := by
  rw [token?_eq_some_iff, isLoginReply_iff h]
  have hfield : ∀ {w}, v.Field "auth" w ↔ ∃ x, o.Field "auth" x ∧ x.value? 126 = some w :=
    Tree.value_field_iff hv fun hrepeats => honce (Or.inl hrepeats)
  have htoken : ∀ {x w}, o.Field "auth" x → x.value? 126 = some w →
      (w.Field "client_token" (.string token) ↔ x.Field "client_token" (.string (some token))) := by
    intro x w hx hw
    rw [Tree.value_field_iff hw fun hrepeats => honce (Or.inr ⟨x, hx, hrepeats⟩)]
    simp only [Tree.value?_eq_string, exists_eq_right]
  constructor
  · rintro ⟨x, hx, htext⟩
    obtain ⟨w, hw⟩ : ∃ w, x.value? 126 = some w := hx.exists_value? hv
    exact ⟨w, hfield.mpr ⟨x, hx, hw⟩, (htoken hx hw).mpr htext⟩
  · rintro ⟨w, hw, htext⟩
    obtain ⟨x, hx, hxw⟩ := hfield.mp hw
    exact ⟨x, hx, (htoken hx hxw).mp htext⟩

/-- **What is listed besides the fields makes no difference.** -/
theorem token?_congr {bytes' : List UInt8} {o' : Tree}
    (h : Json.whole Json.tree (Utf8.items bytes) = .ok o)
    (h' : Json.whole Json.tree (Utf8.items bytes') = .ok o')
    (hagree : Tree.AgreeOn ["auth", "client_token"] o o') : token? bytes' = token? bytes := by
  have hone : ∀ {o o' : Tree} {token : String}, Tree.AgreeOn ["auth", "client_token"] o o' →
      (∃ auth, o.Field "auth" auth ∧ auth.Field "client_token" (.string (some token))) →
      ∃ auth, o'.Field "auth" auth ∧ auth.Field "client_token" (.string (some token)) := by
    rintro o o' token hagree ⟨auth, hauth, htoken⟩
    obtain ⟨auth', hauth', hagree'⟩ := hagree.field hauth
    obtain ⟨x, hx, rfl⟩ := hagree'.field htoken
    exact ⟨auth', hauth', hx⟩
  refine Option.ext fun token => ?_
  rw [token?_eq_some_iff, token?_eq_some_iff, isLoginReply_iff h, isLoginReply_iff h']
  exact ⟨hone hagree.symm, hone hagree⟩

/-- **The token of a login reply, by the value of its body.** It is the one in the value, unless a field
on the way to it is repeated: then there is none, and the login fails. Other members make no difference.
-/
theorem token?_value :
    (∀ bytes v, Json.whole (Json.valueReader Json.maxDepth) (Utf8.items bytes) = .ok v →
      ∃ o, Json.whole Json.tree (Utf8.items bytes) = .ok o ∧ o.value? Json.maxDepth = some v ∧
        (¬ RepeatsField o → ∀ token, token? bytes = some token ↔
          ∃ auth, v.Field "auth" auth ∧ auth.Field "client_token" (.string token))) ∧
    (∀ bytes o, Json.whole Json.tree (Utf8.items bytes) = .ok o → RepeatsField o →
      token? bytes = none ∧
      ∀ (c : Client) a peer reply, c.strategy = .appId a →
        (a.loginOrder c.base).FinalReply peer reply → reply.status = 200 →
        reply.body = .complete bytes →
        (c.login peer).1.result
          = .error (.authentication (loginResult.invalidReply (a.loginUrl c.base).text))) ∧
    (∀ bytes bytes' o o', Json.whole Json.tree (Utf8.items bytes) = .ok o →
      Json.whole Json.tree (Utf8.items bytes') = .ok o' →
      Tree.AgreeOn ["auth", "client_token"] o o' → token? bytes' = token? bytes) := by
  refine ⟨?_, ?_, ?_⟩
  · intro bytes v hv
    obtain ⟨o, ho, hvalue⟩ := (Json.decodes_valueReader Json.maxDepth).whole_eq_ok_iff.mp hv
    exact ⟨o, ho, hvalue, token?_eq_some_iff_value ho hvalue⟩
  · intro bytes o ho hrepeats
    have hnone := token?_of_repeatsField ho hrepeats
    refine ⟨hnone, fun c a peer reply ha hfinal hstatus hbody => ?_⟩
    rw [Client.login_result_error_iff ha, login_eq_iff]
    refine .invalidReply hfinal hstatus fun bytes' hbody' => ?_
    cases hbody.symm.trans hbody'
    exact hnone
  · intro bytes bytes' o o' ho ho' hagree
    exact token?_congr ho ho' hagree

/-- The names and texts of an object that is the only field of an object. There may be a number or a
second text besides the first. -/
def replyTexts : Except Json.Fault Tree → List String
  | .ok (.object [(some field, .object [(some name, .string (some text))])]) => [field, name, text]
  | .ok (.object [(some field, .object [(some name, .string (some text)), (some name', .number _)])]) =>
    [field, name, text, name']
  | .ok (.object [(some field, .object [(some name, .string (some text)),
      (some name', .string (some text'))])]) => [field, name, text, name', text']
  | _ => []

/-- A login reply with nothing but the token. -/
def bareReply : List UInt8 :=
  Utf8.encode "\x7b\"auth\":\x7b\"client_token\":\"t\"\x7d\x7d".toList

theorem tree_bareReply : Json.whole Json.tree (Utf8.items bareReply) = .ok (.object
    [(some "auth", .object [(some "client_token", .string (some "t"))])]) := by
  have htexts : replyTexts (Json.whole Json.tree (Utf8.items bareReply))
      = ["auth", "client_token", "t"] := by decide +kernel
  unfold replyTexts at htexts
  split at htexts <;> cases htexts
  assumption

/-- A login reply with a number besides the token that is too great for a value. -/
def fullReply : List UInt8 :=
  Utf8.encode "\x7b\"auth\":\x7b\"client_token\":\"t\",\"a\":1e999\x7d\x7d".toList

theorem exists_tree_fullReply : ∃ l, Json.whole Json.tree (Utf8.items fullReply) = .ok (.object
    [(some "auth", .object [(some "client_token", .string (some "t")), (some "a", .number l)])]) := by
  have htexts : replyTexts (Json.whole Json.tree (Utf8.items fullReply))
      = ["auth", "client_token", "t", "a"] := by decide +kernel
  unfold replyTexts at htexts
  split at htexts <;> cases htexts
  exact ⟨_, by assumption⟩

/-- A login reply with two tokens. -/
def doubleReply : List UInt8 :=
  Utf8.encode "\x7b\"auth\":\x7b\"client_token\":\"t\",\"client_token\":\"u\"\x7d\x7d".toList

theorem tree_doubleReply : Json.whole Json.tree (Utf8.items doubleReply) = .ok (.object
    [(some "auth", .object [(some "client_token", .string (some "t")),
      (some "client_token", .string (some "u"))])]) := by
  have htexts : replyTexts (Json.whole Json.tree (Utf8.items doubleReply))
      = ["auth", "client_token", "t", "client_token", "u"] := by decide +kernel
  unfold replyTexts at htexts
  split at htexts <;> cases htexts
  assumption

/-- The token of the bare reply is that of the full one, and the double one has none. -/
theorem token?_value_replies :
    token? bareReply = some "t" ∧ token? fullReply = some "t" ∧ token? doubleReply = none ∧
    (Client.exampleClient.login (Client.bodyPeer doubleReply)).1.result
      = .error (.authentication (loginResult.invalidReply
        (loginUrl { appId := "a", userId := "u" } Client.exampleClient.base).text)) := by
  obtain ⟨hvalue, hrepeated, hothers⟩ := token?_value
  have hkeyed : ∀ {ms : List (Option String × Tree)}, (ms.all fun m => m.1.isSome) = true →
      Tree.Keyed ms := fun h => List.all_eq_true.mp h
  have htoken : token? bareReply = some "t" := by
    obtain ⟨o, ho, -, htoken⟩ := hvalue bareReply _
      ((Json.decodes_valueReader Json.maxDepth).whole_eq_ok_iff.mpr ⟨_, tree_bareReply, rfl⟩)
    cases tree_bareReply.symm.trans ho
    refine (htoken ?_ "t").mpr ⟨_, .member rfl, .member rfl⟩
    rintro (honce | ⟨auth, hauth, honce⟩)
    · exact Nat.lt_irrefl 1 honce
    · cases hauth with
      | member _ hheld =>
        cases hheld
        exact Nat.lt_irrefl 1 honce
  refine ⟨htoken, ?_, ?_⟩
  · obtain ⟨l, hfull⟩ := exists_tree_fullReply
    rw [hothers bareReply fullReply _ _ tree_bareReply hfull, htoken]
    refine Or.inr (Or.inr ⟨_, _, rfl, rfl, hkeyed rfl, hkeyed rfl, .cons ?_ .nil⟩)
    exact Or.inr (Or.inr ⟨_, _, rfl, rfl, hkeyed rfl, hkeyed rfl, .cons rfl .nil⟩)
  · obtain ⟨hnone, hlogin⟩ := hrepeated doubleReply _ tree_doubleReply
      (Or.inr ⟨_, .member (hkeyed rfl) rfl, Nat.lt_succ_self 1⟩)
    have hfinal : (loginOrder { appId := "a", userId := "u" } Client.exampleClient.base).FinalReply
        (Client.bodyPeer doubleReply) { status := 200, sent := .complete doubleReply } :=
      ⟨_, rfl, .final rfl rfl rfl⟩
    exact ⟨hnone, hlogin _ _ _ _ rfl hfinal rfl rfl⟩

end SecretClient.AppId
