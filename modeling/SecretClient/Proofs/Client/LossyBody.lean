import SecretClient.Proofs.Client.Envelope
import SecretClient.Proofs.Client.LoginReply
import SecretClient.Proofs.Json.MendedTree

/-!
# Bodies that are not UTF-8

A read decodes the body before it looks for the secret, with U+FFFD for what is no character. So a body
that is no JSON as it was sent may still be taken for an envelope, if nothing is wrong with it but what
stands inside its strings. A login looks at the bytes themselves.

* `whole_objectReader_iff_isSent` : what would be taken for an envelope without decoding it first
* `read_lossy_body` : which bodies are taken for envelopes, and what of a secret was sent
* `lossy_secret` : a secret that was never sent
-/

namespace SecretClient

namespace AppId

/-- **A token that is no text is no token.** -/
theorem token?_of_brokenToken {bytes : List UInt8} {o auth : Json.Tree}
    (h : Json.whole Json.tree (Utf8.items bytes) = .ok o) (hauth : o.Field "auth" auth)
    (htoken : auth.Field "client_token" (.string none)) : token? bytes = none := by
  refine token?_eq_none_iff.mpr fun token hlogin => ?_
  obtain ⟨auth', hauth', htoken'⟩ := (isLoginReply_iff h).mp hlogin
  cases hauth.unique hauth'
  cases htoken.unique htoken'

end AppId

namespace Client

open Json (Value)

/-- The bytes are the UTF-8 text of an object with these members. -/
def IsSent (bytes : List UInt8) (members : List (String × Value)) : Prop :=
  ∃ text, bytes = Utf8.encode text ∧ IsEnvelope text members

/-- The final reply of a read has the status 200, and a body that arrives whole. -/
def Brings (c : Client) (path : String) (peer : Http.Peer) (bytes : List UInt8) : Prop :=
  ∃ reply, (c.readOrder path).FinalReply peer reply ∧ reply.status = 200 ∧
    reply.body = .complete bytes

variable {c : Client} {path : String} {peer : Http.Peer} {bytes : List UInt8} {text : List Char}
  {members : List (String × Value)}

/-! ## What was sent -/

theorem whole_objectReader_ofChars_iff :
    Json.whole Json.objectReader (.ofChars text) = .ok members ↔ IsEnvelope text members := by
  rw [Json.whole_ok_iff, ← String.toList_ofList (l := text), ← decode_envelope, Json.decode_ok_iff]

theorem whole_objectReader_mended_iff :
    Json.whole Json.objectReader (Json.mended (Utf8.items bytes)) = .ok members ↔
      IsEnvelope (Utf8.lossy bytes) members := by
  rw [← Json.ofChars_lossy, whole_objectReader_ofChars_iff]

/-- **Only UTF-8 is an object as it was sent.** -/
theorem whole_objectReader_iff_isSent :
    Json.whole Json.objectReader (Utf8.items bytes) = .ok members ↔ IsSent bytes members := by
  constructor
  · intro h
    obtain ⟨t, hread, hend⟩ := Json.whole_ok_iff.mp h
    obtain ⟨before, text, -, -, hs⟩ := Json.reads_mapReader_iff.mp hread
    obtain ⟨after, -, ht⟩ := Json.exists_blanks t
    have hall : Utf8.items bytes = Json.Input.ofChars (before ++ (text ++ after)) := by
      rw [hs, ht, hend]
      simp [Json.Input.ofChars]
    rw [hall, whole_objectReader_ofChars_iff] at h
    exact ⟨_, Utf8.eq_encode_of_itemsFrom bytes hall, h⟩
  · rintro ⟨text, rfl, h⟩
    rw [Utf8.items_encode]
    exact whole_objectReader_ofChars_iff.mpr h

/-- What is UTF-8 is an envelope exactly if an envelope was sent. -/
theorem isEnvelope_lossy_iff_of_chars? (h : Utf8.chars? bytes = some text) :
    IsEnvelope (Utf8.lossy bytes) members ↔ IsSent bytes members := by
  rw [← whole_objectReader_iff_isSent, Utf8.chars?_eq_some_iff.mp h, Utf8.lossy_encode,
    Utf8.items_encode]
  exact whole_objectReader_ofChars_iff.symm

theorem IsSent.chars?_isSome (h : IsSent bytes members) : (Utf8.chars? bytes).isSome = true := by
  obtain ⟨text, rfl, -⟩ := h
  rw [Utf8.chars?_eq_some_iff.mpr rfl]
  rfl

/-! ## What a read makes of it -/

theorem read_of_brings (h : c.Brings path peer bytes) :
    (c.read path peer).result = extractData (c.secretUrl path) (bodyText bytes) := by
  obtain ⟨reply, hfinal, hstatus, hbody⟩ := h
  rw [read_of_final hfinal, readResult_complete hbody, if_pos hstatus]

theorem read_ok_iff_of_brings (h : c.Brings path peer bytes) (data : String) :
    (c.read path peer).result = .ok data ↔
      ∃ members v, IsEnvelope (Utf8.lossy bytes) members ∧ members.lookup "data" = some v ∧
        data = v.text := by
  rw [read_eq_ok_iff_holds]
  constructor
  · rintro ⟨v, ⟨reply, bytes', members, hfinal, -, hbody, henvelope, hv⟩, rfl⟩
    obtain ⟨reply', hfinal', -, hbody'⟩ := h
    cases hfinal.unique hfinal'
    cases hbody.symm.trans hbody'
    exact ⟨members, v, henvelope, hv, rfl⟩
  · rintro ⟨members, v, henvelope, hv, rfl⟩
    obtain ⟨reply, hfinal, hstatus, hbody⟩ := h
    exact ⟨v, ⟨reply, bytes, members, hfinal, hstatus, hbody, henvelope, hv⟩, rfl⟩

theorem read_bodyInvalid_iff_of_brings (h : c.Brings path peer bytes) :
    (∃ message, (c.read path peer).result = .error (.bodyInvalid (c.secretUrl path) message)) ↔
      ¬ ∃ members, IsEnvelope (Utf8.lossy bytes) members := by
  rw [read_of_brings h, ← bodyText_toList]
  exact extractData_bodyInvalid_iff

/-- **Which bodies a read takes for envelopes.** What counts is the text with U+FFFD for what is no
character. For UTF-8 that is the text that was sent. Any other body is no JSON as it was sent, and is
taken all the same if its text is an envelope; then only its strings were not texts, and the secret was
sent as it is read exactly if all of its strings were. A token of a login that is no text is refused. -/
theorem read_lossy_body (h : c.Brings path peer bytes) :
    (∀ data, (c.read path peer).result = .ok data ↔
      ∃ members v, IsEnvelope (Utf8.lossy bytes) members ∧ members.lookup "data" = some v ∧
        data = v.text) ∧
    ((∃ message, (c.read path peer).result = .error (.bodyInvalid (c.secretUrl path) message)) ↔
      ¬ ∃ members, IsEnvelope (Utf8.lossy bytes) members) ∧
    (∀ text, Utf8.chars? bytes = some text →
      (∀ data, (c.read path peer).result = .ok data ↔
        ∃ members v, IsSent bytes members ∧ members.lookup "data" = some v ∧ data = v.text) ∧
      ((∃ message,
        (c.read path peer).result = .error (.bodyInvalid (c.secretUrl path) message)) ↔
        ¬ ∃ members, IsSent bytes members)) ∧
    (((∃ data, (c.read path peer).result = .ok data) ∧ ¬ ∃ members, IsSent bytes members) ↔
      Utf8.chars? bytes = none ∧
        ∃ members v, IsEnvelope (Utf8.lossy bytes) members ∧ members.lookup "data" = some v) ∧
    (∀ data, (c.read path peer).result = .ok data →
      ∃ ms sent mended v, Json.whole Json.tree (Utf8.items bytes) = .ok (.object ms) ∧
        (Json.held (some "data") ms).getLast? = some sent ∧ sent.Mended mended ∧
        mended.value? (Json.maxDepth - 1) = some v ∧ data = v.text ∧
        (sent.value? (Json.maxDepth - 1) = some v ↔ sent.Intact)) ∧
    ((¬ ∃ o, Json.whole Json.tree (Utf8.items bytes) = .ok o) → ∃ message,
      (c.read path peer).result = .error (.bodyInvalid (c.secretUrl path) message)) ∧
    ∀ (c : Client) a peer reply bytes o auth, c.strategy = .appId a →
      (a.loginOrder c.base).FinalReply peer reply → reply.status = 200 →
      reply.body = .complete bytes → Json.whole Json.tree (Utf8.items bytes) = .ok o →
      o.Field "auth" auth → auth.Field "client_token" (.string none) →
      (c.login peer).1.result
        = .error (.authentication (AppId.loginResult.invalidReply (a.loginUrl c.base).text)) := by
  have hok := read_ok_iff_of_brings h
  have hinvalid := read_bodyInvalid_iff_of_brings h
  refine ⟨hok, hinvalid, fun text htext => ?_, ⟨?_, ?_⟩, fun data hread => ?_, fun hnone => ?_, ?_⟩
  · refine ⟨fun data => ?_, ?_⟩
    · rw [hok]
      simp only [isEnvelope_lossy_iff_of_chars? htext]
    · rw [hinvalid]
      simp only [isEnvelope_lossy_iff_of_chars? htext]
  · rintro ⟨⟨data, hread⟩, hsent⟩
    obtain ⟨members, v, henvelope, hv, -⟩ := (hok data).mp hread
    refine ⟨?_, members, v, henvelope, hv⟩
    by_contra hchars
    obtain ⟨text, htext⟩ := Option.ne_none_iff_exists'.mp hchars
    exact hsent ⟨members, (isEnvelope_lossy_iff_of_chars? htext).mp henvelope⟩
  · rintro ⟨hchars, members, v, henvelope, hv⟩
    refine ⟨⟨_, (hok _).mpr ⟨members, v, henvelope, hv, rfl⟩⟩, ?_⟩
    rintro ⟨others, hothers⟩
    have hsome := hothers.chars?_isSome
    rw [hchars] at hsome
    cases hsome
  · obtain ⟨members, v, henvelope, hv, rfl⟩ := (hok data).mp hread
    obtain ⟨ms, sent, mended, htree, hlast, hmended, hvalue⟩ :=
      Json.exists_of_objectReader_mended (by decide) (whole_objectReader_mended_iff.mpr henvelope) hv
    exact ⟨ms, sent, mended, v, htree, hlast, hmended, hvalue, rfl,
      hmended.value?_eq_some_iff hvalue⟩
  · rw [hinvalid]
    rintro ⟨members, henvelope⟩
    obtain ⟨o, ho, -⟩ :=
      Json.whole_objectReader_iff.mp (whole_objectReader_mended_iff.mpr henvelope)
    exact hnone (Json.exists_whole_tree_mended_iff.mp ⟨o, ho⟩)
  · intro c a peer reply bytes o auth ha hfinal hstatus hbody ho hauth htoken
    rw [login_result_error_iff ha, AppId.login_eq_iff]
    refine .invalidReply hfinal hstatus fun bytes' hbody' => ?_
    cases hbody.symm.trans hbody'
    exact AppId.token?_of_brokenToken ho hauth htoken

/-! ## Bytes that are no character -/

/-- An object with a key that is no text. -/
def brokenKey : List UInt8 :=
  Utf8.encode "\x7b\"".toList ++ 0xFF :: Utf8.encode "\":1,\"data\":\"x\"\x7d".toList

/-- An object with a secret that is no text. -/
def brokenSecret : List UInt8 :=
  Utf8.encode "\x7b\"data\":\"".toList ++ 0xFF :: Utf8.encode "\"\x7d".toList

/-- A login reply with a token that is no text. -/
def brokenToken : List UInt8 :=
  Utf8.encode "\x7b\"auth\":\x7b\"client_token\":\"".toList ++
    0xFF :: Utf8.encode "\"\x7d\x7d".toList

theorem brings_bodyPeer (bytes : List UInt8) : exampleClient.Brings "a" (bodyPeer bytes) bytes :=
  ⟨_, finalReply_bodyPeer bytes, rfl, rfl⟩

/-- Behind a key that is no text the secret is read, although no JSON was sent. -/
theorem read_lossy_body_brokenKey :
    exampleClient.Brings "a" (bodyPeer brokenKey) brokenKey ∧
    (exampleClient.read "a" (bodyPeer brokenKey)).result = .ok "\"x\"" ∧
    ¬ ∃ members, IsSent brokenKey members := by
  have hbrings := brings_bodyPeer brokenKey
  have hread : (exampleClient.read "a" (bodyPeer brokenKey)).result = .ok "\"x\"" := by
    decide +kernel
  obtain ⟨hok, -, -, haccepted, -⟩ := read_lossy_body hbrings
  obtain ⟨members, v, henvelope, hv, -⟩ := (hok _).mp hread
  exact ⟨hbrings, hread, (haccepted.mpr ⟨by decide +kernel, members, v, henvelope, hv⟩).2⟩

/-- **A secret that was never sent**: the body is no JSON, and the read gives U+FFFD for what it holds.
A login refuses a token of the same bytes. -/
theorem lossy_secret :
    exampleClient.Brings "a" (bodyPeer brokenSecret) brokenSecret ∧
    Utf8.chars? brokenSecret = none ∧ (¬ ∃ members, IsSent brokenSecret members) ∧
    (exampleClient.read "a" (bodyPeer brokenSecret)).result = .ok "\"\uFFFD\"" ∧
    (exampleClient.login (bodyPeer brokenToken)).1.result
      = .error (.authentication (AppId.loginResult.invalidReply "http://v/v1/auth/app-id/login")) := by
  have hchars : Utf8.chars? brokenSecret = none := by decide +kernel
  refine ⟨brings_bodyPeer brokenSecret, hchars, ?_, by decide +kernel, by decide +kernel⟩
  rintro ⟨members, hsent⟩
  have hsome := hsent.chars?_isSome
  rw [hchars] at hsome
  cases hsome

end Client

end SecretClient
