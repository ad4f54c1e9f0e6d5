import SecretClient.Proofs.Client.Envelope
import SecretClient.Proofs.Json.Canonical

/-!
# The bytes of a secret

The bytes that a read gives depend on the value of the secret alone, and they tell the values apart.
How the body spelled the secret, and what else the envelope held, is gone.

* `read_canonical` : equal secrets have the same bytes, and what is to be said of these bytes
-/

namespace SecretClient.Client

open Json (Grammar Value)

/-- The bytes of what was read. -/
def secretBytes (data : String) : List UInt8 := Utf8.encode data.toList

/-- The body of an envelope around a secret, with nothing else in it. -/
def envelopeBytes (secret : List UInt8) : List UInt8 :=
  Utf8.encode "\x7b\"data\":".toList ++ secret ++ Utf8.encode "\x7d".toList

variable {c : Client} {path : String} {peer : Http.Peer} {v : Value}

theorem secretBytes_text (v : Value) : secretBytes v.text = Utf8.encode v.chars := by
  unfold secretBytes Value.text
  rw [String.toList_ofList]

/-- **Two secrets have the same bytes exactly if they are the same value.** -/
theorem secretBytes_eq_iff {w : Value} (hv : v.Fits Json.maxDepth) (hw : w.Fits Json.maxDepth)
    (hvfloat : ¬ v.HasFloat) (hwfloat : ¬ w.HasFloat) :
    secretBytes v.text = secretBytes w.text ↔ v.Same w := by
  rw [← Json.text_eq_iff_same hv hw hvfloat hwfloat]
  constructor
  · intro h
    exact String.toList_inj.mp (Utf8.encode_injective h)
  · intro h
    rw [h]

/-- An envelope around a secret is written like an object with one member. -/
theorem lossy_envelopeBytes (v : Value) :
    Utf8.lossy (envelopeBytes (secretBytes v.text)) = (Value.object [("data", v)]).chars := by
  have hchars : (Value.object [("data", v)]).chars
      = "\x7b\"data\":".toList ++ v.chars ++ "\x7d".toList := by
    simp only [Value.chars, Value.memberTexts, Json.listText, List.intercalate_singleton]
    rfl
  rw [hchars, envelopeBytes, secretBytes_text, ← Utf8.encode_append, ← Utf8.encode_append,
    Utf8.lossy_encode]

/-- An envelope around a secret holds it, if the secret is one that can be read again. -/
theorem isEnvelope_envelopeBytes (hv : v.Fits (Json.maxDepth - 1)) (hfloat : ¬ v.HasFloat) :
    IsEnvelope (Utf8.lossy (envelopeBytes (secretBytes v.text))) [("data", v)] := by
  have hfits : (Value.object [("data", v)]).Fits Json.maxDepth := by
    refine .object (List.pairwise_singleton _ _) fun m hm => ?_
    rw [List.mem_singleton.mp hm]
    exact hv
  have hnofloat : ¬ (Value.object [("data", v)]).HasFloat := by
    intro h
    cases h with
    | member hm hm' =>
      rw [List.mem_singleton.mp hm] at hm'
      exact hfloat hm'
  rw [lossy_envelopeBytes]
  exact Json.padded_chars hfits hnofloat

/-- **Served again in an envelope, a secret is held again.** -/
theorem holds_envelopeBytes (hv : v.Fits (Json.maxDepth - 1)) (hfloat : ¬ v.HasFloat)
    {reply : Http.Reply} (hfinal : (c.readOrder path).FinalReply peer reply)
    (hstatus : reply.status = 200)
    (hbody : reply.body = .complete (envelopeBytes (secretBytes v.text))) :
    c.Holds path peer v :=
  ⟨reply, _, _, hfinal, hstatus, hbody, isEnvelope_envelopeBytes hv hfloat,
    Json.lookup_cons_self "data" v []⟩

/-- **The bytes of a secret are a canonical form of its value.** The same value gives the same bytes and
another value gives others, if they hold no floating point numbers. The bytes are UTF-8 without control
characters; nothing stands between the tokens, and the keys are in the order of their bytes. In an
envelope of their own they are read once more. -/
theorem read_canonical :
    (∀ (c : Client) path peer v (c' : Client) path' peer' v',
      c.Holds path peer v → c'.Holds path' peer' v' → ¬ v.HasFloat → ¬ v'.HasFloat →
      ∃ data data', (c.read path peer).result = .ok data ∧
        (c'.read path' peer').result = .ok data' ∧
        (secretBytes data = secretBytes data' ↔ v.Same v')) ∧
    ∀ (c : Client) path peer data, (c.read path peer).result = .ok data →
      ∃ v, c.Holds path peer v ∧
        Utf8.chars? (secretBytes data) = some data.toList ∧
        (∀ b ∈ secretBytes data, 0x20 ≤ b.toNat) ∧
        Grammar.compact.Denotes (Json.maxDepth - 1) data.toList v ∧
        (¬ v.HasFloat → ∀ (c' : Client) path' peer' reply,
          (c'.readOrder path').FinalReply peer' reply → reply.status = 200 →
          reply.body = .complete (envelopeBytes (secretBytes data)) →
          (c'.read path' peer').result = .ok data) := by
  constructor
  · intro c path peer v c' path' peer' v' hv hv' hfloat hfloat'
    exact ⟨v.text, v'.text, hv.read, hv'.read,
      secretBytes_eq_iff hv.fits_maxDepth hv'.fits_maxDepth hfloat hfloat'⟩
  · intro c path peer data hread
    obtain ⟨v, hholds, rfl⟩ := read_eq_ok_iff_holds.mp hread
    have htext : v.text.toList = v.chars := String.toList_ofList
    refine ⟨v, hholds, Utf8.chars?_eq_some_iff.mpr rfl, ?_, ?_, ?_⟩
    · intro b hb
      rw [secretBytes_text] at hb
      exact Utf8.le_of_mem_encode (by decide) (Json.printable_chars hholds.fits) hb
    · rw [htext]
      exact Json.denotes_chars hholds.fits
    · intro hfloat c' path' peer' reply hfinal hstatus hbody
      exact (holds_envelopeBytes hholds.fits hfloat hfinal hstatus hbody).read

/-! ## An account -/

/-- A secret with a text, a user name and a password. -/
def account : Value :=
  .object [("password", .string "p"), ("username", .string "u"), ("value", .string "s")]

theorem fits_account : account.Fits (Json.maxDepth - 1) := by
  refine .object (by unfold Json.KeysOrdered; decide) fun m hm => ?_
  simp only [List.mem_cons, List.not_mem_nil, or_false] at hm
  rcases hm with rfl | rfl | rfl <;> exact .string _

theorem not_hasFloat_account : ¬ account.HasFloat := by
  intro h
  cases h with
  | member hm hfloat =>
    simp only [List.mem_cons, List.not_mem_nil, or_false] at hm
    rcases hm with rfl | rfl | rfl <;> cases hfloat

/-- A peer that sends the account. -/
def accountPeer : Http.Peer := bodyPeer (envelopeBytes (secretBytes account.text))

theorem holds_accountPeer : exampleClient.Holds "a" accountPeer account :=
  holds_envelopeBytes fits_account not_hasFloat_account (finalReply_bodyPeer _) rfl rfl

/-- The bytes of the account are not those of its text, and are read again. -/
theorem read_canonical_account :
    exampleClient.Holds "a" accountPeer account ∧
    ∃ data, (exampleClient.read "a" accountPeer).result = .ok data ∧
      (∃ other, (exampleClient.read "a" (bodyPeer (envelopeBytes
        (secretBytes (Value.string "s").text)))).result = .ok other ∧
        secretBytes data ≠ secretBytes other) ∧
      (exampleClient.read "a" (bodyPeer (envelopeBytes (secretBytes data)))).result = .ok data := by
  obtain ⟨hbytes, hread⟩ := read_canonical
  have htext : ¬ (Value.string "s").HasFloat := nofun
  have hother : exampleClient.Holds "a" (bodyPeer (envelopeBytes
      (secretBytes (Value.string "s").text))) (.string "s") :=
    holds_envelopeBytes (.string "s") htext (finalReply_bodyPeer _) rfl rfl
  obtain ⟨data, other, hdata, hoffered, hsame⟩ :=
    hbytes _ _ _ _ _ _ _ _ holds_accountPeer hother not_hasFloat_account htext
  obtain ⟨v, hholds, -, -, -, hagain⟩ := hread _ _ _ _ hdata
  cases hholds.unique holds_accountPeer
  refine ⟨holds_accountPeer, data, hdata, ⟨other, hoffered, fun heq => ?_⟩,
    hagain not_hasFloat_account _ _ _ _ (finalReply_bodyPeer _) rfl rfl⟩
  cases hsame.mp heq

end SecretClient.Client
