import SecretClient.Proofs.Client.Read
import SecretClient.Proofs.Json.Recognition

/-!
# The envelope of a secret

The body that a secret comes in is taken for an object exactly if its text denotes one, and the secret
is the member `data` of that object. What the members denote that nobody asks for matters as much as
what `data` denotes: a body with a fault anywhere is refused.

* `extractData_envelope` : which bodies are envelopes, and what is taken from them
* `read_eq_ok_iff_holds` : a read gives the text of the secret that the final reply holds
-/

namespace SecretClient.Client

open Json (Grammar Value)

/-- The text denotes an object with these members, and its containers nest at most 127 deep, the
object itself included. -/
def IsEnvelope (text : List Char) (members : List (String × Value)) : Prop :=
  (Grammar.json Json.Literal.float?).Padded ((Grammar.json Json.Literal.float?).Denotes 127)
    text (.object members)

theorem decode_envelope {body : String} {members : List (String × Value)} :
    Json.decode Json.objectReader body = .ok members ↔ IsEnvelope body.toList members :=
  Json.decode_objectReader_iff

/-- A text denotes one object at most. -/
theorem IsEnvelope.unique {text : List Char} {members others : List (String × Value)}
    (h : IsEnvelope text members) (h' : IsEnvelope text others) : members = others := by
  rw [← String.toList_ofList (l := text), ← decode_envelope] at h h'
  exact Except.ok.inj (h.symm.trans h')

/-- The members of an envelope are those that are listed in it. -/
theorem isEnvelope_iff_exists_listed {body : String} {members : List (String × Value)} :
    IsEnvelope body.toList members ↔
      ∃ listed, Json.decode Json.listedReader body = .ok listed ∧
        Json.collectMembers listed = members := by
  rw [← decode_envelope, Json.decode_objectReader, Json.map_eq_ok_iff]

theorem extractData_of_envelope {body : String} {members : List (String × Value)}
    (h : IsEnvelope body.toList members) (url : String) :
    extractData url body =
      match members.lookup "data" with
      | some v => .ok v.text
      | none => .error (.dataMissing url body) := by
  unfold extractData
  rw [decode_envelope.mpr h]
  cases hdata : members.lookup "data" with
  | none => simp only [Json.member?_eq_lookup, hdata]
  | some v => simp only [Json.member?_eq_lookup, hdata]

/-- A body is invalid exactly if it is no envelope. -/
theorem extractData_bodyInvalid_iff {url body : String} :
    (∃ message, extractData url body = .error (.bodyInvalid url message)) ↔
      ¬ ∃ members, IsEnvelope body.toList members := by
  constructor
  · rintro ⟨message, h⟩ ⟨members, hmembers⟩
    rw [extractData_of_envelope hmembers] at h
    split at h <;> cases h
  · intro h
    cases hdecode : Json.decode Json.objectReader body with
    | ok members => exact absurd ⟨members, decode_envelope.mp hdecode⟩ h
    | error e =>
      refine ⟨e.message, ?_⟩
      unfold extractData
      rw [hdecode]

/-- **The bodies that are envelopes, and what is taken from them.** A body is read as the object that
its text denotes, and its member `data` is taken from it. Every other body is invalid: so is one that
begins with something other than a brace, be it a byte order mark, and an envelope with something other
than blanks behind it. -/
theorem extractData_envelope (url body : String) :
    (∀ members, Json.decode Json.objectReader body = .ok members ↔ IsEnvelope body.toList members) ∧
    (∀ members, IsEnvelope body.toList members →
      extractData url body =
        match members.lookup "data" with
        | some v => .ok v.text
        | none => .error (.dataMissing url body)) ∧
    ((∃ message, extractData url body = .error (.bodyInvalid url message)) ↔
      ¬ ∃ members, IsEnvelope body.toList members) ∧
    (∀ before c rest, body.toList = before ++ c :: rest → Grammar.Blanks before →
      c ∉ [' ', '\t', '\n', '\r'] → c ≠ '\x7b' →
      ∃ message, extractData url body = .error (.bodyInvalid url message)) ∧
    ∀ members rest, IsEnvelope body.toList members → ¬ Grammar.Blanks rest →
      ∃ message, extractData url (String.ofList (body.toList ++ rest))
        = .error (.bodyInvalid url message) := by
  refine ⟨fun members => decode_envelope, fun members h => extractData_of_envelope h url,
    extractData_bodyInvalid_iff, ?_, ?_⟩
  · intro before c rest hbody hbefore hc hbrace
    refine extractData_bodyInvalid_iff.mpr ?_
    rintro ⟨members, hmembers⟩
    have hblank : Json.isBlank (some c) = false := by
      rw [Bool.eq_false_iff, Ne, Json.isBlank_iff]
      exact hc
    have hdecode := decode_envelope.mpr hmembers
    rw [← String.ofList_toList (s := body), hbody] at hdecode
    exact hbrace (Json.eq_brace_of_decode_objectReader hbefore hblank hdecode)
  · intro members rest hmembers hrest
    refine extractData_bodyInvalid_iff.mpr ?_
    rintro ⟨others, hothers⟩
    exact hrest (Json.blanks_of_decode_objectReader hmembers (decode_envelope.mpr hothers))

/-! ## The secret of a final reply -/

/-- The final reply of a read has the status 200 and an envelope with the secret `v`. -/
def Holds (c : Client) (path : String) (peer : Http.Peer) (v : Value) : Prop :=
  ∃ reply bytes members, (c.readOrder path).FinalReply peer reply ∧ reply.status = 200 ∧
    reply.body = .complete bytes ∧ IsEnvelope (Utf8.lossy bytes) members ∧
    members.lookup "data" = some v

variable {c : Client} {path : String} {peer : Http.Peer}

theorem bodyText_toList (bytes : List UInt8) : (bodyText bytes).toList = Utf8.lossy bytes :=
  String.toList_ofList

/-- The secret that a final reply holds is the last member `data` that its body lists. -/
theorem Holds.of_listed {reply : Http.Reply} {bytes : List UInt8} {listed : List (String × Value)}
    {v : Value} (hfinal : (c.readOrder path).FinalReply peer reply) (hstatus : reply.status = 200)
    (hbody : reply.body = .complete bytes)
    (hlisted : Json.decode Json.listedReader (bodyText bytes) = .ok listed)
    (hdata : listed.reverse.lookup "data" = some v) : c.Holds path peer v := by
  have henvelope := isEnvelope_iff_exists_listed.mpr ⟨listed, hlisted, rfl⟩
  rw [bodyText_toList] at henvelope
  refine ⟨reply, bytes, _, hfinal, hstatus, hbody, henvelope, ?_⟩
  rw [Json.lookup_collectMembers]
  exact hdata

/-- **A read gives the text of the secret that the final reply holds.** -/
theorem read_eq_ok_iff_holds {data : String} :
    (c.read path peer).result = .ok data ↔ ∃ v, c.Holds path peer v ∧ data = v.text := by
  rw [read_eq_iff]
  constructor
  · intro h
    cases h with
    | secret hfinal hstatus hbody hlisted hdata =>
      exact ⟨_, .of_listed hfinal hstatus hbody hlisted hdata, rfl⟩
  · rintro ⟨v, ⟨reply, bytes, members, hfinal, hstatus, hbody, henvelope, hdata⟩, rfl⟩
    rw [← bodyText_toList] at henvelope
    obtain ⟨listed, hlisted, rfl⟩ := isEnvelope_iff_exists_listed.mp henvelope
    rw [Json.lookup_collectMembers] at hdata
    exact .secret hfinal hstatus hbody hlisted hdata

/-- There is one secret at most that a final reply holds. -/
theorem Holds.unique {v w : Value} (h : c.Holds path peer v) (h' : c.Holds path peer w) : v = w := by
  obtain ⟨reply, bytes, members, hfinal, -, hbody, henvelope, hdata⟩ := h
  obtain ⟨reply', bytes', members', hfinal', -, hbody', henvelope', hdata'⟩ := h'
  cases hfinal.unique hfinal'
  cases hbody.symm.trans hbody'
  cases henvelope.unique henvelope'
  exact Option.some.inj (hdata.symm.trans hdata')

/-- A secret nests one level less deep than the envelope that it comes in. -/
theorem Holds.fits {v : Value} (h : c.Holds path peer v) : v.Fits (Json.maxDepth - 1) := by
  obtain ⟨reply, bytes, members, -, -, -, henvelope, hdata⟩ := h
  rw [← bodyText_toList] at henvelope
  obtain ⟨listed, hlisted, rfl⟩ := isEnvelope_iff_exists_listed.mp henvelope
  obtain ⟨before, behind, heq, -⟩ := List.lookup_eq_some_iff.mp hdata
  refine Json.fits_of_listed hlisted ("data", v) (Json.mem_collectMembers ?_)
  rw [heq]
  exact List.mem_append_right _ List.mem_cons_self

theorem Holds.fits_maxDepth {v : Value} (h : c.Holds path peer v) : v.Fits Json.maxDepth :=
  h.fits.mono (by decide)

theorem Holds.read {v : Value} (h : c.Holds path peer v) : (c.read path peer).result = .ok v.text :=
  read_eq_ok_iff_holds.mpr ⟨v, h, rfl⟩

end SecretClient.Client
