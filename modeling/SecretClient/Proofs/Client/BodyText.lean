import SecretClient.Proofs.Client.LossyBody
import SecretClient.Proofs.Client.Status
import SecretClient.Proofs.Text.Lossy

/-!
# The text of a body

A body that arrives whole is taken for a text before anything else is done with it, by a read as well as
by a login or a revocation that is refused. What of the body was written as a text is kept in it, and a
fault costs the damaged characters alone.

* `body_text_kept` : where the text of a body goes, and what it keeps of the body
-/

namespace SecretClient.Client

variable {c : Client} {path : String} {peer : Http.Peer} {reply : Http.Reply} {bytes : List UInt8}

theorem errorText_of_complete (h : reply.body = .complete bytes) :
    reply.errorText = bodyText bytes := by
  unfold Http.Reply.errorText Http.Reply.text?
  rw [h]
  rfl

/-- The text of a body stands in the failure of an operation that needs another status. -/
theorem refusal_of_complete (h : reply.body = .complete bytes) (url : String) :
    reply.refusal url = .unexpectedStatus reply.status url (bodyText bytes) := by
  rw [Http.Reply.refusal, errorText_of_complete h]

/-- The text in which a secret is missing is that of the body. -/
theorem body_of_dataMissing (hfinal : (c.readOrder path).FinalReply peer reply)
    (hbody : reply.body = .complete bytes) {url body : String}
    (h : (c.read path peer).result = .error (.dataMissing url body)) : body = bodyText bytes := by
  obtain ⟨-, reply', bytes', listed, hfinal', -, hbody', htext, -⟩ := read_dataMissing_iff.mp h
  cases hfinal.unique hfinal'
  cases hbody.symm.trans hbody'
  exact htext

theorem bodyText_append (bytes rest : List UInt8) (h : ¬ Utf8.Continues rest) :
    bodyText (bytes ++ rest) = bodyText bytes ++ bodyText rest := by
  unfold bodyText
  rw [Utf8.lossy_append bytes h, String.ofList_append]

/-- **Where the text of a body goes, and what it keeps of the body.** A read looks for the secret in the
text or fails with it, and a login or a revocation that is refused fails with it too. What was written
as a text is kept, whatever stands around it; a body can be cut where no character goes on; and its
bytes of ASCII are the characters of ASCII of its text. -/
theorem body_text_kept :
    (∀ (c : Client) path peer reply bytes, (c.readOrder path).FinalReply peer reply →
      reply.body = .complete bytes →
      (reply.status = 200 →
        (c.read path peer).result = extractData (c.secretUrl path) (bodyText bytes)) ∧
      (reply.status ≠ 200 →
        (c.read path peer).result
          = .error (.unexpectedStatus reply.status (c.secretUrl path) (bodyText bytes))) ∧
      ∀ url body, (c.read path peer).result = .error (.dataMissing url body) →
        body = bodyText bytes) ∧
    (∀ (c : Client) a peer reply bytes, c.strategy = .appId a →
      (a.loginOrder c.base).FinalReply peer reply → reply.body = .complete bytes →
      reply.status ≠ 200 →
      (c.login peer).1.result
        = .error (.unexpectedStatus reply.status (a.loginUrl c.base).text (bodyText bytes))) ∧
    (∀ (c : Client) peer reply bytes, c.strategy.isRevocable = true →
      c.revokeOrder.FinalReply peer reply → reply.body = .complete bytes → reply.status ≠ 204 →
      (c.revoke peer).1.result
        = .error (.unexpectedStatus reply.status c.revokeOrder.url (bodyText bytes))) ∧
    (∀ text, bodyText (Utf8.encode text) = String.ofList text) ∧
    (∀ bytes text rest, text ≠ [] →
      bodyText (bytes ++ (Utf8.encode text ++ rest))
        = bodyText bytes ++ (String.ofList text ++ bodyText rest)) ∧
    (∀ bytes rest, ¬ Utf8.Continues rest →
      bodyText (bytes ++ rest) = bodyText bytes ++ bodyText rest) ∧
    ∀ bytes, Utf8.asciiChars (bodyText bytes).toList = Utf8.asciiOf bytes := by
  refine ⟨fun c path peer reply bytes hfinal hbody => ⟨fun hstatus => ?_, fun hstatus => ?_,
      fun url body => body_of_dataMissing hfinal hbody⟩,
    fun c a peer reply bytes ha hfinal hbody hstatus => ?_,
    fun c peer reply bytes hr hfinal hbody hstatus => ?_, fun text => ?_,
    fun bytes text rest htext => ?_, bodyText_append, fun bytes => ?_⟩
  · exact read_of_brings ⟨reply, hfinal, hstatus, hbody⟩
  · rw [read_of_final hfinal, readResult_complete hbody, if_neg hstatus]
  · rw [(refuses_login ha peer).refused reply hfinal hstatus, refusal_of_complete hbody]
  · rw [(refuses_revoke hr peer).refused reply hfinal hstatus, refusal_of_complete hbody]
  · rw [bodyText, Utf8.lossy_encode]
  · unfold bodyText
    rw [Utf8.lossy_append_encode bytes htext, String.ofList_append, String.ofList_append]
  · rw [bodyText_toList, Utf8.asciiChars_lossy]

/-- In the text of a secret that is no text, U+FFFD stands for the byte that is at fault, and what
stands around it is kept. -/
theorem body_text_kept_brokenSecret :
    (exampleClient.read "a" (bodyPeer brokenSecret)).result
      = extractData (exampleClient.secretUrl "a") "\x7b\"data\":\"\uFFFD\"\x7d" := by
  obtain ⟨hread, -, -, -, hkept, -⟩ := body_text_kept
  have htext : bodyText brokenSecret = "\x7b\"data\":\"\uFFFD\"\x7d" := by
    have hbefore := hkept [] "\x7b\"data\":\"".toList (0xFF :: Utf8.encode "\"\x7d".toList)
      (by decide)
    have hbehind := hkept [0xFF] "\"\x7d".toList [] (by decide)
    rw [List.append_nil, List.singleton_append] at hbehind
    rw [List.nil_append, hbehind] at hbefore
    rw [brokenSecret, hbefore]
    decide +kernel
  rw [← htext]
  exact (hread _ _ _ _ _ (finalReply_bodyPeer brokenSecret) rfl).1 rfl

end SecretClient.Client
