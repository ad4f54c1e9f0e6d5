import SecretClient.Proofs.Client.Envelope
import SecretClient.Proofs.Client.Reread
import SecretClient.Proofs.Json.Record

/-!
# Reading a secret as a value of a known shape

A secret of a known shape is read from the text that the secret is written as, and what is read is
what the value in the body is, seen as that shape. A value that has not the shape is refused.

* `read_typed` : for each shape, which values are read as what
-/

namespace SecretClient.Client

open Json (Value)

variable {c : Client} {path : String} {peer : Http.Peer} {v : Value}

/-- Reading as a shape gives what is decoded from the secret, and else a failure of the text. -/
theorem readAs_of_follows {α : Type} {reader : Json.Reader α} {result : Option α}
    (h : c.Holds path peer v) (hreader : Json.Follows reader v.chars result) (a : α) :
    (c.readAs reader path peer).result = .ok a ↔ result = some a := by
  rw [readAs_result reader h.read, ← Json.decode_eq_ok_iff_of_follows hreader]
  cases Json.decode reader v.text <;> simp [Except.mapError]

theorem readAs_error {α : Type} {reader : Json.Reader α} (h : c.Holds path peer v) {f : Failure}
    (hf : (c.readAs reader path peer).result = .error f) : ∃ e, f = .json e := by
  rw [readAs_result reader h.read] at hf
  cases hdecode : Json.decode reader v.text with
  | ok a => rw [hdecode] at hf; cases hf
  | error e =>
    rw [hdecode] at hf
    cases hf
    exact ⟨e, rfl⟩

/-- Reading as a shape gives the secrets of the shape that are decoded from the value. -/
theorem readAs_shape_eq_ok_iff {α : Type} {shape : Shape} {reader : Json.Reader α}
    {secret : α → Secret} {result : Option α} {decoded : α → Prop} (h : c.Holds path peer v)
    (hshape : shape.reader = fun s => Json.mapValue secret (reader s))
    (hreader : Json.Follows reader v.chars result) (hdecoded : ∀ a, result = some a ↔ decoded a)
    (s : Secret) :
    (c.readAs shape.reader path peer).result = .ok s ↔ ∃ a, s = secret a ∧ decoded a := by
  rw [hshape, readAs_of_follows h (Json.follows_mapValue hreader secret), Option.map_eq_some_iff]
  constructor
  · rintro ⟨a, ha, rfl⟩
    exact ⟨a, rfl, (hdecoded a).mp ha⟩
  · rintro ⟨a, rfl, ha⟩
    exact ⟨a, (hdecoded a).mpr ha, rfl⟩

theorem follows_textRecord (h : c.Holds path peer v) (type : Json.RecordType) :
    Json.Follows (Json.recordReader type Json.textReader) v.chars
      (v.fieldsOf? Value.text? type.fields) :=
  Json.follows_recordReader (fun _ => Json.follows_textReader _) h.fits

/-- The only element of a list that has no other. -/
def single? : List String → Option String
  | [s] => some s
  | _ => none

/-- The secret of one field is the member `value` of an object, or the only element of a list. -/
theorem readValue_eq_ok_iff (h : c.Holds path peer v) (s : String) :
    (c.readValue path peer).result = .ok s ↔
      (∃ members, v = .object members ∧ members.lookup "value" = some (.string s)) ∨
        v = .array [.string s] := by
  have hone : ∀ s, (v.fieldsOf? Value.text? ["value"]).bind single? = some s ↔
      v.fieldsOf? Value.text? ["value"] = some [s] := by
    intro s
    rcases v.fieldsOf? Value.text? ["value"] with _ | ⟨_ | ⟨a, _ | ⟨b, rest⟩⟩⟩
    all_goals simp [single?]
  have hreader := Json.follows_fieldReader (follows_textRecord h ⟨"SecretValue", ["value"]⟩) hone
  refine (readAs_of_follows h hreader s).trans ((hone s).trans ?_)
  rw [Value.fieldsOf?_text_iff]
  simp

/-- **What a secret is read as, for each shape**: a single text in a field or as the only element of a
list; a text; an object of texts; a list of natural numbers, none of which is a floating point number; a
user name and a password, by their names or by their places. Everything else is refused for its text. -/
theorem read_typed :
    (∀ (c : Client) path peer data, (c.read path peer).result = .ok data ↔
      ∃ v, c.Holds path peer v ∧ data = v.text) ∧
    ∀ (c : Client) path peer v, c.Holds path peer v →
      (∀ s, (c.readValue path peer).result = .ok s ↔
        (∃ members, v = .object members ∧ members.lookup "value" = some (.string s)) ∨
          v = .array [.string s]) ∧
      (∀ secret, (c.readAs Shape.text.reader path peer).result = .ok secret ↔
        ∃ s, secret = .text s ∧ v = .string s) ∧
      (∀ secret, (c.readAs Shape.textMap.reader path peer).result = .ok secret ↔
        ∃ members, secret = .textMap members ∧
          v = .object (members.map fun m => (m.1, .string m.2))) ∧
      (∀ secret, (c.readAs Shape.naturals.reader path peer).result = .ok secret ↔
        ∃ ns, secret = .naturals ns ∧ v = .array (ns.map fun n : Nat => .number (.integer n)) ∧
          ∀ n ∈ ns, n < 2 ^ 64) ∧
      (∀ secret, (c.readAs Shape.credentials.reader path peer).result = .ok secret ↔
        ∃ username password, secret = .credentials [username, password] ∧
          ((∃ members, v = .object members ∧
              members.lookup "username" = some (.string username) ∧
              members.lookup "password" = some (.string password)) ∨
            v = .array [.string username, .string password])) ∧
      (∀ f, (c.readValue path peer).result = .error f → ∃ e, f = .json e) ∧
      ∀ (shape : Shape) f, (c.readAs shape.reader path peer).result = .error f →
        ∃ e, f = .json e := by
  refine ⟨fun c path peer data => read_eq_ok_iff_holds, fun c path peer v h => ⟨?_, ?_, ?_, ?_, ?_,
    fun f => readAs_error h, fun shape f => readAs_error h⟩⟩
  · exact readValue_eq_ok_iff h
  · exact readAs_shape_eq_ok_iff h rfl (Json.follows_textReader v) (Value.text?_eq_some_iff v)
  · exact readAs_shape_eq_ok_iff h rfl
      (Json.follows_mapReader (fun _ => Json.follows_textReader _) h.fits) (Value.mapOf?_text_iff v)
  · exact readAs_shape_eq_ok_iff h rfl (Json.follows_listReader Json.follows_naturalReader h.fits)
      (Value.listOf?_natural_iff h.fits)
  · intro secret
    rw [readAs_shape_eq_ok_iff h rfl (follows_textRecord h _) (Value.fieldsOf?_text_iff v _)]
    constructor
    · rintro ⟨fields, rfl, ⟨members, rfl, hfields⟩ | ⟨rfl, hlength⟩⟩
      · have hlength := (congrArg List.length hfields).symm
        rw [List.length_map, List.length_map] at hlength
        obtain ⟨username, password, rfl⟩ := List.length_eq_two.mp hlength
        simp only [List.map_cons, List.map_nil, List.cons.injEq, and_true] at hfields
        exact ⟨username, password, rfl, Or.inl ⟨members, rfl, hfields⟩⟩
      · obtain ⟨username, password, rfl⟩ := List.length_eq_two.mp hlength
        exact ⟨username, password, rfl, Or.inr rfl⟩
    · rintro ⟨username, password, rfl, ⟨members, rfl, husername, hpassword⟩ | rfl⟩
      · refine ⟨_, rfl, Or.inl ⟨members, rfl, ?_⟩⟩
        simp only [List.map_cons, List.map_nil, husername, hpassword]
      · exact ⟨_, rfl, Or.inr ⟨rfl, rfl⟩⟩

/-- The account is read as its value and as its credentials, and not as a text. -/
theorem read_typed_account :
    exampleClient.Holds "a" accountPeer account ∧
    (exampleClient.readValue "a" accountPeer).result = .ok "s" ∧
    (exampleClient.readAs Shape.credentials.reader "a" accountPeer).result
      = .ok (.credentials ["u", "p"]) ∧
    ∃ e, (exampleClient.readAs Shape.text.reader "a" accountPeer).result = .error (.json e) := by
  obtain ⟨hvalue, htext, -, -, hcredentials, -, hrefused⟩ :=
    read_typed.2 _ _ _ _ holds_accountPeer
  refine ⟨holds_accountPeer, (hvalue "s").mpr (Or.inl ⟨_, rfl, rfl⟩),
    (hcredentials _).mpr ⟨"u", "p", rfl, Or.inl ⟨_, rfl, rfl, rfl⟩⟩, ?_⟩
  cases hresult : (exampleClient.readAs Shape.text.reader "a" accountPeer).result with
  | ok secret =>
    obtain ⟨s, -, hs⟩ := (htext secret).mp hresult
    cases hs
  | error f =>
    obtain ⟨e, rfl⟩ := hrefused .text f hresult
    exact ⟨e, rfl⟩

end SecretClient.Client
