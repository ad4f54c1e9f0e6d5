import Mathlib.Data.List.Forall2
import SecretClient.Proofs.Json.Canonical
import SecretClient.Proofs.Json.Skip

/-!
# The parts of a text

The text of a container is cut into the texts of its elements or members in one way only, whatever
numbers the literals inside denote: a reader that passes values finds the ends of the parts.

* `reads_skipReader_of_denotes` : the text of a value is passed
* `Grammar.Listed.parts_unique`, `Grammar.Listed.memberParts_unique` : a container is cut in one way
* `Grammar.Padded.part_unique` : a text is told from the gaps around it
-/

namespace SecretClient.Json

open Grammar (Blanks)

namespace Grammar

/-- A text of some value. -/
def Denoting (g : Grammar) (d : Nat) (text : List Char) (_ : Unit) : Prop :=
  ∃ v, g.Denotes d text v

/-- A text of some value, listed as the text itself. -/
def Part (g : Grammar) (d : Nat) (text part : List Char) : Prop :=
  part = text ∧ ∃ v, g.Denotes d text v

/-! ## Items seen in two ways -/

section

variable {α β : Type} {g : Grammar} {item : List Char → α → Prop} {q : List Char → β → Prop}
  {R : β → α → Prop}

theorem Separated.lift {text : List Char} {as : List α} (hs : Separated item text as)
    (h : ∀ {text a}, item text a → ∃ b, q text b ∧ R b a) :
    ∃ bs, Separated q text bs ∧ List.Forall₂ R bs as := by
  induction hs with
  | last ha =>
    obtain ⟨b, hb, hR⟩ := h ha
    exact ⟨[b], .last hb, .cons hR .nil⟩
  | more ha _ ih =>
    obtain ⟨b, hb, hR⟩ := h ha
    obtain ⟨bs, hbs, hall⟩ := ih
    exact ⟨b :: bs, .more hb hbs, .cons hR hall⟩

/-- Where each item may be seen in another way, so may all that are listed. -/
theorem Listed.lift {text : List Char} {as : List α} (hs : g.Listed item text as)
    (h : ∀ {text a}, item text a → ∃ b, q text b ∧ R b a) :
    ∃ bs, g.Listed q text bs ∧ List.Forall₂ R bs as := by
  cases hs with
  | empty hgap => exact ⟨[], .empty hgap, .nil⟩
  | items hs =>
    obtain ⟨bs, hbs, hall⟩ := hs.lift (q := g.Padded q) (R := R) <| by
      rintro _ a ⟨hbefore, ha, hafter⟩
      obtain ⟨b, hb, hR⟩ := h ha
      exact ⟨b, .intro hbefore hb hafter, hR⟩
    exact ⟨bs, .items hbs, hall⟩

theorem Separated.of_map {f : β → α} {text : List Char} {bs : List β}
    (hs : Separated item text (bs.map f)) (h : ∀ {text b}, item text (f b) → q text b) :
    Separated q text bs := by
  generalize has : bs.map f = as at hs
  induction hs generalizing bs with
  | last ha =>
    obtain ⟨b, rfl, rfl⟩ := List.map_eq_singleton_iff.mp has
    exact .last (h ha)
  | more ha _ ih =>
    obtain ⟨b, bs, rfl, rfl, hbs⟩ := List.map_eq_cons_iff.mp has
    exact .more (h ha) (ih hbs)

/-- Where items are told by others, these may be listed in their place. -/
theorem Listed.of_map {f : β → α} {text : List Char} {bs : List β}
    (hs : g.Listed item text (bs.map f)) (h : ∀ {text b}, item text (f b) → q text b) :
    g.Listed q text bs := by
  have hpadded : ∀ {text b}, g.Padded item text (f b) → g.Padded q text b := by
    rintro _ b ⟨hbefore, ha, hafter⟩
    exact .intro hbefore (h ha) hafter
  generalize has : bs.map f = as at hs
  cases hs with
  | empty hgap =>
    rw [List.map_eq_nil_iff.mp has]
    exact .empty hgap
  | items hs =>
    rw [← has] at hs
    exact .items (hs.of_map hpadded)

theorem Member.lift {text : List Char} {m : String × α} (hm : g.Member item text m)
    (h : ∀ {text a}, item text a → ∃ b, q text b ∧ R b a) :
    ∃ n, g.Member q text n ∧ n.1 = m.1 ∧ R n.2 m.2 := by
  obtain ⟨hkey, hbehind, hbefore, ha⟩ := hm
  obtain ⟨b, hb, hR⟩ := h ha
  exact ⟨(_, b), .intro hkey hbehind hbefore hb, rfl, hR⟩

end

variable {g : Grammar} {d : Nat} {text inner : List Char} {v : Value}

/-! ## Containers, by their brackets -/

theorem Scalar.ne_bracket {c : Char} {r : List Char} (h : g.Scalar (c :: r) v) :
    c ≠ '[' ∧ c ≠ '\x7b' := by
  generalize htext : c :: r = text at h
  cases h with
  | null => cases htext; decide
  | true => cases htext; decide
  | false => cases htext; decide
  | number hnumber =>
    obtain ⟨b, s, rfl, hbegins⟩ := hnumber.begins
    cases htext
    exact ⟨fun heq => ne_of_beginsNumber hbegins (by decide) (congrArg some heq),
      fun heq => ne_of_beginsNumber hbegins (by decide) (congrArg some heq)⟩
  | string hstring =>
    cases hstring
    cases htext
    decide

/-- What is denoted behind a bracket is a list. -/
theorem Denotes.exists_array (h : g.Denotes (d + 1) ('[' :: inner ++ [']']) v) :
    ∃ vs, v = .array vs ∧ g.Listed (g.Denotes d) inner vs := by
  rcases h with h | h
  · exact absurd rfl h.ne_bracket.1
  · generalize htext : '[' :: inner ++ [']'] = text at h
    cases h with
    | array hlisted =>
      cases List.append_cancel_right htext
      exact ⟨_, rfl, hlisted⟩
    | object => cases htext

/-- What is denoted behind a brace is an object. -/
theorem Denotes.exists_object (h : g.Denotes (d + 1) ('\x7b' :: inner ++ ['\x7d']) v) :
    ∃ listed members, v = .object members ∧ g.Listed (g.Member (g.Denotes d)) inner listed ∧
      Latest listed members := by
  rcases h with h | h
  · exact absurd rfl h.ne_bracket.2
  · generalize htext : '\x7b' :: inner ++ ['\x7d'] = text at h
    cases h with
    | array => cases htext
    | object hlisted _ hlatest =>
      cases List.append_cancel_right htext
      exact ⟨_, _, rfl, hlisted, hlatest⟩

theorem Member.exists_denoting {m : String × Value} (h : g.Member (g.Denotes d) text m) :
    ∃ n, g.Member (g.Denoting d) text n := by
  obtain ⟨hkey, hbehind, hbefore, hv⟩ := h
  exact ⟨(_, ()), .intro hkey hbehind hbefore ⟨_, hv⟩⟩

theorem Denotes.startsElement (h : g.Denotes d text v) (t : Input) :
    StartsElement (Input.ofChars text ++ t) := by
  cases d with
  | zero =>
    have hparts : g.Scalar text v ∨ g.Container g.Scalar text v := Or.inl h
    exact startsElement_of_scalar Container.opens hparts t
  | succ d => exact startsElement_of_scalar Container.opens h t

/-- What has gaps around it is the text of a value with gaps around it. -/
theorem Padded.exists_part {α : Type} {item : List Char → α → Prop} {a : α}
    (hitem : ∀ {text a}, item text a → ∃ v, g.Denotes d text v) (h : g.Padded item text a) :
    ∃ part, g.Padded (g.Part d) text part ∧ item part a := by
  obtain ⟨hbefore, ha, hafter⟩ := h
  exact ⟨_, .intro hbefore ⟨rfl, hitem ha⟩ hafter, ha⟩

/-- The elements of a list have their texts in it. -/
theorem Listed.exists_parts {vs : List Value} (h : g.Listed (g.Denotes d) text vs) :
    ∃ parts, g.Listed (g.Part d) text parts ∧ List.Forall₂ (g.Denotes d) parts vs :=
  h.lift fun {text v} hv => ⟨text, ⟨rfl, v, hv⟩, hv⟩

/-- The members of an object have their texts in it. -/
theorem Listed.exists_memberParts {listed : List (String × Value)}
    (h : g.Listed (g.Member (g.Denotes d)) text listed) :
    ∃ parts, g.Listed (g.Member (g.Part d)) text parts ∧
      List.Forall₂ (fun m n => m.1 = n.1 ∧ g.Denotes d m.2 n.2) parts listed :=
  h.lift fun hm => hm.lift fun {text v} hv => ⟨text, ⟨rfl, v, hv⟩, hv⟩

end Grammar

/-! ## Texts of values are passed -/

section

variable {g : Grammar} {d : Nat} {text : List Char} {v : Value} {t : Input}

theorem reads_skipReader_of_scalar (d : Nat) (h : g.Scalar text v) (ht : Stops t) :
    Reads (skipReader d) (Input.ofChars text ++ t) () t := by
  obtain ⟨array, object, hreader⟩ := exists_skipParts d
  rw [hreader, reads_parts, dropWhile_of_startsElement ((h.denotes 0).startsElement t)]
  cases h with
  | null => exact .null
  | true => exact .true
  | false => exact .false
  | number hnumber =>
    have hread := reads_literal_of_numberText hnumber ht
    obtain ⟨c, r, rfl, hbegins⟩ := hnumber.begins
    exact .number hbegins (reads_mapValue.mpr ⟨_, hread, rfl⟩)
  | string hstring =>
    obtain ⟨s, hs⟩ := startsMember_stringText hstring t
    rw [hs]
    exact .string (reads_skippedTail_of_stringTail
      (reads_stringTail_iff_stringText.mpr ⟨text, hstring, hs.symm⟩))

/-- What is passed is passed with blanks in front of it. -/
theorem reads_skipReader_of_blanks {before : List Char} {s : Input} (hbefore : Blanks before)
    (h : Reads (skipReader d) s () t) : Reads (skipReader d) (Input.ofChars before ++ s) () t := by
  obtain ⟨array, object, hreader⟩ := exists_skipParts d
  rw [hreader, reads_parts] at h ⊢
  rwa [dropWhile_blanks hbefore]

theorem reads_skippedKey {text : List Char} {key : String} (t : Input) (h : StringText text key) :
    Reads (afterFirst skippedTail) (Input.ofChars text ++ t) () t := by
  obtain ⟨s, hs⟩ := startsMember_stringText h t
  rw [hs]
  exact reads_afterFirst.mpr (reads_skippedTail_of_stringTail
    (reads_stringTail_iff_stringText.mpr ⟨text, h, hs.symm⟩))

/-- **The text of a value is passed**, whatever numbers its literals denote. -/
theorem reads_skipReader_of_denotes (hgap : ∀ {text}, g.gap text → Blanks text) :
    ∀ {d text v t}, g.Denotes d text v → Stops t →
      Reads (skipReader d) (Input.ofChars text ++ t) () t := by
  intro d
  induction d with
  | zero =>
    intro text v t h ht
    exact reads_skipReader_of_scalar 0 h ht
  | succ d ih =>
    intro text v t h ht
    rcases h with h | h
    · exact reads_skipReader_of_scalar (d + 1) h ht
    · cases h with
      | array hlisted =>
        have hitem : Takes (skipReader d) StartsElement (g.Denoting d) :=
          ⟨fun t ⟨_, h⟩ => h.startsElement t, fun ⟨_, h⟩ ht => ih h ht⟩
        obtain ⟨units, hunits, -⟩ := hlisted.lift (q := g.Denoting d) (R := fun _ _ => True)
          fun h => ⟨(), ⟨_, h⟩, trivial⟩
        have hread := reads_items_of_listed delimits_nextElement hitem hgap hunits t
        rw [ofChars_quoted]
        exact reads_parts.mpr (.array (reads_mapValue.mpr ⟨units, hread, rfl⟩))
      | object hlisted =>
        have hitem : Takes (member (afterFirst skippedTail) fun _ => skipReader d) StartsMember
            fun text (_ : Unit × Unit) => ∃ m, g.Member (g.Denoting d) text m := by
          refine ⟨fun t ⟨_, h⟩ => startsMember_member h t, fun ⟨m, h⟩ ht => ?_⟩
          exact reads_member_of_member (f := fun _ => ()) hgap reads_skippedKey
            (fun hbefore ⟨_, h⟩ ht => reads_skipReader_of_blanks hbefore (ih h ht)) h ht
        obtain ⟨units, hunits, -⟩ := hlisted.lift
          (q := fun text (_ : Unit × Unit) => ∃ m, g.Member (g.Denoting d) text m)
          (R := fun _ _ => True) fun h => ⟨((), ()), h.exists_denoting, trivial⟩
        have hread := reads_items_of_listed delimits_nextKey hitem hgap hunits t
        rw [ofChars_quoted]
        exact reads_parts.mpr (.object (reads_mapValue.mpr ⟨units, hread, rfl⟩))

end

/-! ## The parts of a container -/

/-- Reads the text that another reader passes. -/
def taken {α : Type} (p : Reader α) : Reader (List Char) := fun s =>
  match p s with
  | .error e => .error e
  | .ok (_, r) => .ok ((s.take (s.length - r.1.length)).filterMap id, r)

/-- Reads the text of a value whose containers nest at most so deep. -/
def partReader (d : Nat) : Reader (List Char) := Reader.padded (taken (skipReader d))

theorem reads_taken {α : Type} {p : Reader α} {a : α} {text : List Char} {t : Input}
    (h : Reads p (Input.ofChars text ++ t) a t) :
    Reads (taken p) (Input.ofChars text ++ t) text t := by
  obtain ⟨r, hok, hr⟩ := h.exists_ok
  unfold Reads taken
  rw [hok]
  simp [outcome, hr, Input.ofChars, List.filterMap_map]

section

variable {g : Grammar} {d : Nat} {text part : List Char} (hgap : ∀ {text}, g.gap text → Blanks text)

include hgap

theorem reads_partReader {before : List Char} {t : Input}
    (hbefore : Blanks before) (h : g.Part d text part) (ht : Stops t) :
    Reads (partReader d) (Input.ofChars before ++ (Input.ofChars text ++ t)) part t := by
  obtain ⟨rfl, v, h⟩ := h
  refine reads_padded.mpr ?_
  rw [dropWhile_blanks hbefore, dropWhile_of_startsElement (h.startsElement t)]
  exact reads_taken (reads_skipReader_of_denotes hgap h ht)

theorem takes_part : Takes (partReader d) StartsElement (g.Part d) where
  starts t := fun ⟨_, _, h⟩ => h.startsElement t
  complete h ht := reads_partReader hgap (List.forall_mem_nil _) h ht

theorem takes_memberPart :
    Takes (member string fun _ => partReader d) StartsMember (g.Member (g.Part d)) where
  starts t h := startsMember_member h t
  complete h ht := reads_member_of_member (f := id) hgap
    (fun t hkey => reads_string_of_stringText hkey t) (reads_partReader hgap) h ht

/-- **A list is cut into elements in one way.** -/
theorem Grammar.Listed.parts_unique {parts parts' : List (List Char)}
    (h : g.Listed (g.Part d) text parts) (h' : g.Listed (g.Part d) text parts') : parts = parts' :=
  have hread {parts} (h : g.Listed (g.Part d) text parts) :=
    reads_items_of_listed delimits_nextElement (takes_part hgap) hgap h []
  ((hread h).unique (hread h')).1

/-- **An object is cut into members in one way.** -/
theorem Grammar.Listed.memberParts_unique
    {listed listed' : List (String × List Char)} (h : g.Listed (g.Member (g.Part d)) text listed)
    (h' : g.Listed (g.Member (g.Part d)) text listed') : listed = listed' :=
  have hread {listed} (h : g.Listed (g.Member (g.Part d)) text listed) :=
    reads_items_of_listed delimits_nextKey (takes_memberPart hgap) hgap h []
  ((hread h).unique (hread h')).1

/-- **A text is told from the gaps around it in one way.** -/
theorem Grammar.Padded.part_unique {part' : List Char} (h : g.Padded (g.Part d) text part)
    (h' : g.Padded (g.Part d) text part') : part = part' := by
  have hread : ∀ {part}, g.Padded (g.Part d) text part →
      ∃ t, Reads (partReader d) (Input.ofChars text ++ []) part t := by
    intro part h
    cases h with
    | @intro before text after _ hbefore hpart hafter =>
      rw [ofChars_append, ofChars_append]
      exact ⟨_, reads_partReader hgap (hgap hbefore) hpart (stops_blanks (hgap hafter) stops_nil)⟩
  obtain ⟨t, hpart⟩ := hread h
  obtain ⟨t', hpart'⟩ := hread h'
  exact (hpart.unique hpart').1

end

end SecretClient.Json
