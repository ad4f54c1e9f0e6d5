import SecretClient.Proofs.Client.LossyBody
import SecretClient.Proofs.Client.Typed
import SecretClient.Proofs.Json.Integer
import SecretClient.Proofs.Json.Word

/-!
# Integers in a secret

An integer literal in a secret comes out as it was sent, if it is no negative zero and its number is
from -2⁶³ to 2⁶⁴-1. Any other comes out as a number that shows a point or an exponent, so that nobody
takes it for the integer that was sent, and it is refused where a natural number is asked for.

* `SecretAt.exists_denotes`, `exists_secretAt` : what a body has at the places of its secret
* `readNaturals_iff_secretAt` : what is read as a list of natural numbers
* `integers_exact` : what becomes of an integer literal of any length, at any place
-/

namespace SecretClient.Client

open Json (IsExact Grammar IntegerText IsMarked Literal NaturalText Place Value)

/-- The body has this text at a place of its member `data`; of several, the last one counts. -/
def SecretAt (bytes : List UInt8) (place : Place) (text : List Char) : Prop :=
  (Grammar.json Literal.float?).Padded
    (fun body => (Grammar.json Literal.float?).At 127 body (.member "data" :: place))
    (Utf8.lossy bytes) text

variable {c : Client} {path : String} {peer : Http.Peer} {bytes : List UInt8} {data : String}
  {place : Place} {text : List Char} {members : List (String × Value)} {v : Value} {n : Int}

theorem Brings.holds (h : c.Brings path peer bytes) (henvelope : IsEnvelope (Utf8.lossy bytes) members)
    (hv : members.lookup "data" = some v) : c.Holds path peer v := by
  obtain ⟨reply, hfinal, hstatus, hbody⟩ := h
  exact ⟨reply, bytes, members, hfinal, hstatus, hbody, henvelope, hv⟩

/-- What a body has at a place of its secret denotes the value at this place. -/
theorem SecretAt.exists_denotes (h : SecretAt bytes place text)
    (henvelope : IsEnvelope (Utf8.lossy bytes) members) (hv : members.lookup "data" = some v) :
    ∃ w, v.at? place = some w ∧
      (Grammar.json Literal.float?).Denotes (126 - place.length) text w := by
  obtain ⟨body, hbody, hat⟩ := h.exists_part fun hat => hat.exists_value
  obtain ⟨body', hbody', hdenotes⟩ := henvelope.exists_part fun hdenotes => ⟨_, hdenotes⟩
  cases hbody.part_unique (fun hgap => hgap) hbody'
  obtain ⟨w, hw, hsub⟩ := hat.exists_denotes (fun hgap => hgap) hdenotes
  rw [List.length_cons, Nat.add_comm, ← Nat.sub_sub] at hsub
  refine ⟨w, ?_, hsub⟩
  simpa [Value.at?, Value.child?, hv] using hw

/-- Where the secret has a value inside, the body has a text. -/
theorem exists_secretAt {w : Value} (henvelope : IsEnvelope (Utf8.lossy bytes) members)
    (hv : members.lookup "data" = some v) (hw : v.at? place = some w) :
    ∃ text, SecretAt bytes place text ∧
      (Grammar.json Literal.float?).Denotes (126 - place.length) text w := by
  have hroot : (Value.object members).at? (.member "data" :: place) = some w := by
    simpa [Value.at?, Value.child?, hv] using hw
  unfold SecretAt
  generalize Utf8.lossy bytes = chars at henvelope
  obtain ⟨hbefore, hdenotes, hafter⟩ := henvelope
  obtain ⟨text, hat, hsub⟩ := hdenotes.exists_at hroot
  rw [List.length_cons, Nat.add_comm, ← Nat.sub_sub] at hsub
  exact ⟨text, .intro hbefore hat hafter, hsub⟩

/-! ## Lists of natural numbers -/

theorem readNaturals_eq_ok_iff (h : c.Holds path peer v) (s : Secret) :
    (c.readAs Shape.naturals.reader path peer).result = .ok s ↔
      ∃ ns, s = .naturals ns ∧ v = .array (ns.map fun n : Nat => .number (.integer n)) :=
  readAs_shape_eq_ok_iff h rfl (Json.follows_listReader Json.follows_naturalReader h.fits)
    v.listOf?_natural_eq_some_iff s

/-- **A secret is read as natural numbers** if it is a list of their texts. -/
theorem readNaturals_iff_secretAt (h : c.Brings path peer bytes)
    (henvelope : IsEnvelope (Utf8.lossy bytes) members) (hv : members.lookup "data" = some v)
    (ns : List Nat) :
    (c.readAs Shape.naturals.reader path peer).result = .ok (.naturals ns) ↔
      ∃ inner, SecretAt bytes [] ('[' :: inner ++ [']']) ∧
        (Grammar.json Literal.float?).Listed NaturalText inner ns := by
  rw [readNaturals_eq_ok_iff (h.holds henvelope hv)]
  constructor
  · rintro ⟨ns, heq, hlist⟩
    cases heq
    have hroot : v.at? [] = some v := rfl
    obtain ⟨text, hat, hdenotes⟩ := exists_secretAt henvelope hv hroot
    rw [hlist] at hdenotes
    rcases hdenotes with hscalar | hcontainer
    · cases hscalar
    · cases hcontainer with
      | array hlisted => exact ⟨_, hat, Json.denotes_naturals_iff.mp (Or.inr (.array hlisted))⟩
  · rintro ⟨inner, hat, hlisted⟩
    obtain ⟨w, hw, hdenotes⟩ := hat.exists_denotes henvelope hv
    cases hw
    exact ⟨ns, rfl, Json.json_denotes_unique hdenotes (Json.denotes_naturals_iff.mpr hlisted)⟩

/-- An element of a list of natural numbers is the number that its text writes. -/
theorem exact_of_readNaturals (h : c.Brings path peer bytes)
    (henvelope : IsEnvelope (Utf8.lossy bytes) members) (hv : members.lookup "data" = some v)
    {ns : List Nat} (hread : (c.readAs Shape.naturals.reader path peer).result = .ok (.naturals ns))
    {i : Nat} (hat : SecretAt bytes [.element i] text) (htext : IntegerText text n) :
    ns[i]? = some n.toNat ∧ 0 ≤ n ∧ IsExact text n := by
  obtain ⟨ns, heq, rfl⟩ := (readNaturals_eq_ok_iff (h.holds henvelope hv) _).mp hread
  cases heq
  obtain ⟨w, hw, hdenotes⟩ := hat.exists_denotes henvelope hv
  have hfound : (ns.map fun n : Nat => Value.number (.integer n))[i]? = some w := by
    simpa [Value.at?, Value.child?] using hw
  rw [List.getElem?_map] at hfound
  obtain ⟨k, hk, rfl⟩ := Option.map_eq_some_iff.mp hfound
  obtain ⟨hother, hexact⟩ := Json.denotes_integer_iff.mp hdenotes
  cases htext.unique hother
  exact ⟨hk, Int.natCast_nonneg k, hexact⟩

/-! ## What becomes of an integer -/

/-- **What becomes of an integer literal**, of any length and at any place of a secret that is read. It
is written as it was sent exactly if it is in range, and else as a number that is marked. Natural
numbers are read from a list of their texts and from nothing else, so a literal is read as its own
number or not at all. Words of 64 bits are enough to read it, and none of them wraps. -/
theorem integers_exact (hbrings : c.Brings path peer bytes)
    (hread : (c.read path peer).result = .ok data) :
    (∀ place text n, SecretAt bytes place text → IntegerText text n →
      (Grammar.compact.At (Json.maxDepth - 1) data.toList place text ↔ IsExact text n) ∧
      (¬ IsExact text n → ∃ other,
        Grammar.compact.At (Json.maxDepth - 1) data.toList place other ∧ IsMarked other)) ∧
    (∀ ns, (c.readAs Shape.naturals.reader path peer).result = .ok (.naturals ns) ↔
      ∃ inner, SecretAt bytes [] ('[' :: inner ++ [']']) ∧
        (Grammar.json Literal.float?).Listed NaturalText inner ns) ∧
    (∀ i text n, SecretAt bytes [.element i] text → IntegerText text n →
      (∀ ns, (c.readAs Shape.naturals.reader path peer).result = .ok (.naturals ns) →
        ns[i]? = some n.toNat ∧ 0 ≤ n ∧ IsExact text n) ∧
      (¬ (0 ≤ n ∧ IsExact text n) →
        ∃ e, (c.readAs Shape.naturals.reader path peer).result = .error (.json e))) ∧
    (∀ l : Literal, l.WellFormed → l.isInteger = true → l.toNumber = l.wordNumber) ∧
    (∀ ds : List Nat, (∀ d ∈ ds, d < 10) →
      (∀ n : UInt64, Json.absorb n.toNat ds
        = ((Json.takeDigits n ds).1.toNat, (Json.takeDigits n ds).2.length)) ∧
      ∃ taken, ds = taken ++ (Json.takeDigits 0 ds).2 ∧
        (Json.takeDigits 0 ds).1.toNat = Digit.number 10 taken) ∧
    ∀ (n : UInt64) (m : Int64), Json.negated? n = some m → m.toInt = -(n.toNat : Int) := by
  obtain ⟨members, v, henvelope, hv, rfl⟩ := (read_ok_iff_of_brings hbrings data).mp hread
  have hholds := hbrings.holds henvelope hv
  refine ⟨fun place text n hat htext => ?_, readNaturals_iff_secretAt hbrings henvelope hv,
    fun i text n hat htext => ?_, fun l => Json.toNumber_eq_wordNumber, fun ds hds => ?_, fun n m h => ?_⟩
  · obtain ⟨w, hw, hdenotes⟩ := hat.exists_denotes henvelope hv
    rw [Value.text, String.toList_ofList]
    exact Json.at_integerText hholds.fits hw htext hdenotes
  · have hexact : ∀ ns, (c.readAs Shape.naturals.reader path peer).result = .ok (.naturals ns) →
        ns[i]? = some n.toNat ∧ 0 ≤ n ∧ IsExact text n :=
      fun ns hns => exact_of_readNaturals hbrings henvelope hv hns hat htext
    refine ⟨hexact, fun hout => ?_⟩
    cases hresult : (c.readAs Shape.naturals.reader path peer).result with
    | ok s =>
      obtain ⟨ns, rfl, -⟩ := (readNaturals_eq_ok_iff hholds s).mp hresult
      exact absurd (hexact ns hresult).2 hout
    | error f =>
      obtain ⟨e, rfl⟩ := readAs_error hholds hresult
      exact ⟨e, rfl⟩
  · obtain ⟨taken, heq, hword, -⟩ := Json.takeDigits_exact hds 0
    exact ⟨Json.absorb_eq_takeDigits hds, taken, heq, hword⟩
  · exact (Json.negated?_eq_some_iff.mp h).1

/-- The natural numbers that were read, if they were. -/
def naturals? : Except Failure Secret → Option (List Nat)
  | .ok (.naturals ns) => some ns
  | _ => none

theorem eq_naturals_of_naturals? {result : Except Failure Secret} {ns : List Nat}
    (h : naturals? result = some ns) : result = .ok (.naturals ns) := by
  unfold naturals? at h
  split at h
  · rw [Option.some.inj h]
  · cases h

/-- An object with a list of integers, the first of them the greatest that is kept. -/
def integersBody : List UInt8 :=
  Utf8.encode "\x7b\"data\":[18446744073709551615, 0]\x7d".toList

/-- The greatest integer is returned, and read as a natural number for its text. -/
theorem integers_exact_greatest :
    exampleClient.Brings "a" (bodyPeer integersBody) integersBody ∧
    (exampleClient.read "a" (bodyPeer integersBody)).result = .ok "[18446744073709551615,0]" ∧
    ∃ inner, SecretAt integersBody [] ('[' :: inner ++ [']']) ∧
      (Grammar.json Literal.float?).Listed NaturalText inner [2 ^ 64 - 1, 0] := by
  have hbrings := brings_bodyPeer integersBody
  have hread : (exampleClient.read "a" (bodyPeer integersBody)).result
      = .ok "[18446744073709551615,0]" := by
    decide +kernel
  have hnaturals : (exampleClient.readAs Shape.naturals.reader "a" (bodyPeer integersBody)).result
      = .ok (.naturals [2 ^ 64 - 1, 0]) :=
    eq_naturals_of_naturals? (by decide +kernel)
  exact ⟨hbrings, hread, ((integers_exact hbrings hread).2.1 _).mp hnaturals⟩

end SecretClient.Client
