import SecretClient.Proofs.Client.Canonical

/-!
# Reading a secret as a value

A secret is written anew from the value that the body holds, and reading it as a value takes that text
apart a second time.

* `readAs_value` : the second time gives the value of the first
-/

namespace SecretClient

namespace Client

variable {c : Client} {path : String} {peer : Http.Peer}

theorem readAs_result {α : Type} (reader : Json.Reader α) {data : String}
    (h : (c.read path peer).result = .ok data) :
    (c.readAs reader path peer).result = (Json.decode reader data).mapError .json := by
  unfold readAs
  dsimp only
  rw [h]

/-- What reading as a value makes of the text of a secret. -/
theorem decode_valueShape (text : String) :
    Json.decode Shape.value.reader text = (Json.parse text).map .value :=
  Json.decode_eq_map (fun _ => rfl) text

/-- **Reading a secret as a value gives the value that the body holds**, unless it holds floating point
numbers. Only such a number can be refused, for its range: neither the syntax of the text nor its depth
can be at fault. -/
theorem readAs_value :
    (∀ v : Json.Value, v.Fits Json.maxDepth → ¬ v.HasFloat → Json.parse v.text = .ok v) ∧
    ∀ (c : Client) path peer data, (c.read path peer).result = .ok data →
      ∃ reply bytes listed v, (c.readOrder path).FinalReply peer reply ∧ reply.status = 200 ∧
        reply.body = .complete bytes ∧
        Json.decode Json.listedReader (bodyText bytes) = .ok listed ∧
        listed.reverse.lookup "data" = some v ∧ data = v.text ∧ v.Fits Json.maxDepth ∧
        (¬ v.HasFloat → (c.readAs Shape.value.reader path peer).result = .ok (.value v)) ∧
        ∀ f, (c.readAs Shape.value.reader path peer).result = .error f →
          v.HasFloat ∧ ∃ e, f = .json e ∧ e.cause = .numberOutOfRange := by
  refine ⟨fun v => Json.parse_text, fun c path peer data hread => ?_⟩
  have hresult := readAs_result Shape.value.reader hread
  rw [decode_valueShape] at hresult
  cases read_eq_iff.mp hread with
  | @secret reply bytes listed v hfinal hstatus hbody hlisted hdata =>
    have hmem : ("data", v) ∈ listed := by
      obtain ⟨before, behind, heq, -⟩ := List.lookup_eq_some_iff.mp hdata
      rw [← List.mem_reverse, heq]
      exact List.mem_append_right _ List.mem_cons_self
    have hfits : v.Fits Json.maxDepth :=
      (Json.fits_of_listed hlisted _ hmem).mono (by decide)
    refine ⟨reply, bytes, listed, v, hfinal, hstatus, hbody, hlisted, hdata, rfl, hfits,
      fun hfloat => ?_, fun f hf => ?_⟩
    · rw [hresult, Json.parse_text hfits hfloat]
      rfl
    · rw [hresult] at hf
      cases hparse : Json.parse v.text with
      | ok w => rw [hparse] at hf; cases hf
      | error e =>
        rw [hparse] at hf
        cases hf
        exact ⟨(Json.parse_text_error hfits hparse).1, e, rfl, (Json.parse_text_error hfits hparse).2⟩

/-- The account is read as a value, and from its text. -/
theorem readAs_value_account :
    (exampleClient.readAs Shape.value.reader "a" accountPeer).result = .ok (.value account) ∧
    Json.parse account.text = .ok account := by
  obtain ⟨hparse, hread⟩ := readAs_value
  obtain ⟨reply, bytes, listed, v, hfinal, hstatus, hbody, hlisted, hdata, -, -, hvalue, -⟩ :=
    hread _ _ _ _ holds_accountPeer.read
  cases (Holds.of_listed hfinal hstatus hbody hlisted hdata).unique holds_accountPeer
  exact ⟨hvalue not_hasFloat_account,
    hparse account (fits_account.mono (by decide)) not_hasFloat_account⟩

end Client

end SecretClient
