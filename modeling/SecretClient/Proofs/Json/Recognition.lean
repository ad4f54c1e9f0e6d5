import SecretClient.Proofs.Json.Fits
import SecretClient.Proofs.Json.Spelling

/-!
# What is read, by the grammar

The readers of values take the texts of `Grammar.json` and no others, and read them as what they
denote. A reader that stands in front of an item is compared with the texts of the item by
`Recognizes`; what a container does with its items is told once for elements and members (`Delimits`).

* `reads_items_iff` : what is read behind an opening bracket
* `recognizesValues_valueReader` : what is read as a value
* `object_unique` : a text begins with one object at most
* `decode_objectReader_iff` : which texts are read as objects
-/

namespace SecretClient.Json

open Grammar (Blanks)

/-! ## Items -/

/-- A reader takes the texts of items, where items begin in a certain way. -/
structure Recognizes {α : Type} (p : Reader α) (starts : Input → Prop)
    (item : List Char → α → Prop) : Prop where
  sound {s t : Input} {a : α} : starts s → Reads p s a t →
    ∃ text, item text a ∧ s = Input.ofChars text ++ t
  starts {text : List Char} {a : α} (t : Input) : item text a → starts (Input.ofChars text ++ t)
  complete {text : List Char} {a : α} {t : Input} : item text a → Stops t →
    Reads p (Input.ofChars text ++ t) a t

/-- A reader takes the texts of items, and perhaps others. -/
structure Takes {α : Type} (p : Reader α) (starts : Input → Prop)
    (item : List Char → α → Prop) : Prop where
  starts {text : List Char} {a : α} (t : Input) : item text a → starts (Input.ofChars text ++ t)
  complete {text : List Char} {a : α} {t : Input} : item text a → Stops t →
    Reads p (Input.ofChars text ++ t) a t

theorem Recognizes.takes {α : Type} {p : Reader α} {starts : Input → Prop}
    {item : List Char → α → Prop} (h : Recognizes p starts item) : Takes p starts item :=
  ⟨h.starts, h.complete⟩

section

variable {α : Type} {next : Bool → (s : Input) → Except Fault (Next s)} {closing : Char}
  {starts : Input → Prop} {p : Reader α} {item : List Char → α → Prop}
  {convert : Literal → Option Float} {g : Grammar}

theorem sound_items (hdelimits : Delimits next closing starts) (hitem : Recognizes p starts item)
    {as : List α} : ∀ {first : Bool} {s t : Input}, Reads (items next p first) s as t →
      (as = [] ∧ s.dropWhile isBlank = some closing :: t) ∨
        ∃ text, Ahead first s (Input.ofChars text ++ some closing :: t) ∧
          Grammar.Separated ((Grammar.json convert).Padded item) text as := by
  induction as with
  | nil =>
    intro first s t h
    rcases reads_items.mp h with ⟨-, hcloses⟩ | ⟨a, rest, b, r, heq, -⟩
    · exact Or.inl ⟨rfl, hdelimits.closes.mp hcloses⟩
    · cases heq
  | cons a as ih =>
    intro first s t h
    rcases reads_items.mp h with ⟨heq, -⟩ | ⟨a, rest, b, r, heq, hbegins, hread, hrest⟩
    · cases heq
    · cases heq
      obtain ⟨front, hahead, rfl, hstarts⟩ := hdelimits.begins.mp hbegins
      obtain ⟨text, htext, hb⟩ := hitem.sound hstarts hread
      obtain ⟨before, hbefore, hfront⟩ := exists_blanks front
      rw [hb] at hfront
      refine Or.inr ?_
      -- what is left behind the item is the end or a comma, with blanks in front
      rcases ih hrest with ⟨rfl, hclosing⟩ | ⟨others, hothers, hseparated⟩
      · obtain ⟨-, after, hafter, rfl⟩ := dropWhile_eq_cons_iff.mp hclosing
        refine ⟨before ++ text ++ after, ?_, .last (.intro hbefore htext hafter)⟩
        rw [ofChars_append, ofChars_append, ← hfront]
        exact hahead
      · obtain ⟨-, after, hafter, rfl⟩ := dropWhile_eq_cons_iff.mp hothers
        refine ⟨before ++ text ++ after ++ ',' :: others, ?_,
          .more (.intro hbefore htext hafter) hseparated⟩
        rw [ofChars_append, ofChars_append, ofChars_append, ofChars_cons, ← hfront]
        exact hahead

/-- What is read of a container whose item stands ahead: the item, and behind it what is left. -/
theorem complete_item (hdelimits : Delimits next closing starts) (hitem : Takes p starts item)
    (hgap : ∀ {text}, g.gap text → Blanks text) {first : Bool} {s rest : Input} {text : List Char}
    {a : α} (h : g.Padded item text a)
    (hahead : Ahead first s (Input.ofChars text ++ rest)) (hrest : Stops rest) :
    ∃ b r, Begins next first s b ∧ Reads p b a r ∧
      r.dropWhile isBlank = rest.dropWhile isBlank := by
  obtain ⟨hbefore, htext, hafter⟩ := h
  rw [ofChars_append, ofChars_append] at hahead
  refine ⟨_, _, hdelimits.begins.mpr ⟨_, hahead, ?_, hitem.starts _ htext⟩,
    hitem.complete htext (stops_blanks (hgap hafter) hrest), dropWhile_blanks (hgap hafter) rest⟩
  rw [dropWhile_blanks (hgap hbefore)]
  exact hdelimits.unblank (hitem.starts _ htext)

theorem complete_items (hdelimits : Delimits next closing starts) (hitem : Takes p starts item)
    (hgap : ∀ {text}, g.gap text → Blanks text) {text : List Char} {as : List α}
    (h : Grammar.Separated (g.Padded item) text as) :
    ∀ {first : Bool} {s t : Input}, Ahead first s (Input.ofChars text ++ some closing :: t) →
      Reads (items next p first) s as t := by
  induction h with
  | last hpadded =>
    intro first s t hahead
    obtain ⟨b, r, hbegins, hread, hr⟩ :=
      complete_item hdelimits hitem hgap hpadded hahead (hdelimits.stops t)
    rw [List.dropWhile_cons_of_neg hdelimits.solid] at hr
    exact reads_items.mpr (Or.inr ⟨_, [], b, r, rfl, hbegins, hread,
      reads_items.mpr (Or.inl ⟨rfl, hdelimits.closes.mpr hr⟩)⟩)
  | @more text rest a as hpadded _ ih =>
    intro first s t hahead
    rw [ofChars_append, ofChars_cons] at hahead
    obtain ⟨b, r, hbegins, hread, hr⟩ :=
      complete_item hdelimits hitem hgap hpadded hahead (stops_cons (by decide) _)
    exact reads_items.mpr (Or.inr ⟨a, as, b, r, rfl, hbegins, hread, ih hr⟩)

/-- Behind an opening bracket, what a grammar lists there is read. -/
theorem reads_items_of_listed (hdelimits : Delimits next closing starts)
    (hitem : Takes p starts item) (hgap : ∀ {text}, g.gap text → Blanks text) {text : List Char}
    {as : List α} (h : g.Listed item text as) (t : Input) :
    Reads (items next p true) (Input.ofChars text ++ some closing :: t) as t := by
  cases h with
  | empty hempty =>
    refine reads_items.mpr (Or.inl ⟨rfl, hdelimits.closes.mpr ?_⟩)
    rw [dropWhile_blanks (hgap hempty), List.dropWhile_cons_of_neg hdelimits.solid]
  | items hseparated => exact complete_items hdelimits hitem hgap hseparated rfl

variable (convert) in
/-- **What is read behind an opening bracket is what the grammar lists there.** -/
theorem reads_items_iff (hdelimits : Delimits next closing starts)
    (hitem : Recognizes p starts item) {s t : Input} {as : List α} :
    Reads (items next p true) s as t ↔
      ∃ text, (Grammar.json convert).Listed item text as ∧
        s = Input.ofChars text ++ some closing :: t := by
  constructor
  · intro h
    rcases sound_items hdelimits hitem h with ⟨rfl, hclosing⟩ | ⟨text, hahead, hseparated⟩
    · obtain ⟨-, text, htext, rfl⟩ := dropWhile_eq_cons_iff.mp hclosing
      exact ⟨text, .empty htext, rfl⟩
    · exact ⟨text, .items hseparated, hahead⟩
  · rintro ⟨text, hlisted, rfl⟩
    exact reads_items_of_listed hdelimits hitem.takes (fun hgap => hgap) hlisted t

end

/-! ## Values inside a container -/

/-- A reader takes the texts of values, with blanks in front of them. -/
structure RecognizesValues (p : Reader Value) (denotes : List Char → Value → Prop) : Prop where
  sound {s t : Input} {v : Value} : Reads p s v t → ∃ before text, Blanks before ∧ denotes text v ∧
    s = Input.ofChars before ++ (Input.ofChars text ++ t)
  starts {text : List Char} {v : Value} (t : Input) : denotes text v →
    StartsElement (Input.ofChars text ++ t)
  complete {before text : List Char} {v : Value} {t : Input} : Blanks before → denotes text v →
    Stops t → Reads p (Input.ofChars before ++ (Input.ofChars text ++ t)) v t

section

variable {p : Reader Value} {denotes : List Char → Value → Prop} {convert : Literal → Option Float}

/-- Where an element begins no blanks are left in front of it. -/
theorem RecognizesValues.recognizes_element (h : RecognizesValues p denotes) :
    Recognizes p StartsElement denotes where
  sound := by
    rintro s t v ⟨c, r, rfl, hblank, -⟩ hread
    obtain ⟨before, text, hbefore, htext, hs⟩ := h.sound hread
    cases before with
    | nil => exact ⟨text, htext, hs⟩
    | cons b before =>
      rw [ofChars_cons] at hs
      have hb := isBlank_iff.mpr (hbefore b List.mem_cons_self)
      rw [← (List.cons.inj hs).1, hblank] at hb
      cases hb
  starts := h.starts
  complete htext ht := h.complete (List.forall_mem_nil _) htext ht

theorem startsMember_stringText {text : List Char} {key : String} (h : StringText text key)
    (t : Input) : StartsMember (Input.ofChars text ++ t) := by
  cases h
  exact ⟨_, rfl⟩

/-- Behind its opening quote, a string is read by its texts. -/
theorem reads_stringTail_iff_stringText {s t : Input} {a : String} :
    Reads stringTail s a t ↔
      ∃ text, StringText text a ∧ some '"' :: s = Input.ofChars text ++ t := by
  rw [reads_stringTail_iff]
  constructor
  · rintro ⟨text, htext, rfl⟩
    exact ⟨_, .intro htext, (ofChars_quoted '"' '"' text t).symm⟩
  · rintro ⟨_, ⟨htext⟩, heq⟩
    rw [ofChars_quoted] at heq
    exact ⟨_, htext, (List.cons.inj heq).2⟩

theorem reads_string_of_stringText {text : List Char} {a : String} (h : StringText text a)
    (t : Input) : Reads string (Input.ofChars text ++ t) a t := by
  obtain ⟨s, hs⟩ := startsMember_stringText h t
  rw [hs]
  exact reads_string.mpr (reads_stringTail_iff_stringText.mpr ⟨text, h, hs.symm⟩)

theorem startsMember_member {α : Type} {g : Grammar} {value : List Char → α → Prop}
    {text : List Char} {m : String × α} (h : g.Member value text m) (t : Input) :
    StartsMember (Input.ofChars text ++ t) := by
  obtain ⟨hkey, -, -, -⟩ := h
  rw [ofChars_append, ofChars_append]
  exact startsMember_stringText hkey _

/-- **A member is read** by readers that take its key and its value. -/
theorem reads_member_of_member {α κ : Type} {g : Grammar} {value : List Char → α → Prop}
    {key : Reader κ} {p : Reader α} {f : String → κ}
    (hgap : ∀ {text}, g.gap text → Blanks text)
    (hkey : ∀ {text k} t, StringText text k → Reads key (Input.ofChars text ++ t) (f k) t)
    (hvalue : ∀ {before text a t}, Blanks before → value text a → Stops t →
      Reads p (Input.ofChars before ++ (Input.ofChars text ++ t)) a t)
    {text : List Char} {m : String × α} {t : Input} (h : g.Member value text m) (ht : Stops t) :
    Reads (member key fun _ => p) (Input.ofChars text ++ t) (f m.1, m.2) t := by
  obtain ⟨hname, hbehind, hbefore, htext⟩ := h
  rw [ofChars_append, ofChars_append, ofChars_cons, ofChars_append]
  refine reads_member.mpr ⟨_, _, hkey _ hname, ?_, hvalue (hgap hbefore) htext ht⟩
  rw [dropWhile_blanks (hgap hbehind)]
  rfl

theorem RecognizesValues.recognizes_member (h : RecognizesValues p denotes) :
    Recognizes (member string fun _ => p) StartsMember ((Grammar.json convert).Member denotes) where
  sound := by
    rintro s t ⟨key, v⟩ ⟨s, rfl⟩ hread
    obtain ⟨r, u, hkey, hcolon, hv⟩ := reads_member.mp hread
    obtain ⟨text, htext, hs⟩ := reads_stringTail_iff_stringText.mp (reads_string.mp hkey)
    obtain ⟨-, behind, hbehind, rfl⟩ := dropWhile_eq_cons_iff.mp hcolon
    obtain ⟨before, others, hbefore, hothers, rfl⟩ := h.sound hv
    refine ⟨_, .intro htext hbehind hbefore hothers, hs.trans ?_⟩
    rw [ofChars_append, ofChars_append, ofChars_cons, ofChars_append]
  starts t hmember := startsMember_member hmember t
  complete hmember ht :=
    reads_member_of_member (f := id) (fun hgap => hgap)
      (fun t hkey => reads_string_of_stringText hkey t) h.complete hmember ht

end

/-! ## Scalars -/

/-- The readers of what stands behind an opening bracket and behind an opening brace take the texts
of containers. -/
structure RecognizesContainers (array object : Reader Value)
    (container : List Char → Value → Prop) : Prop where
  array {s t : Input} {v : Value} : Reads array s v t ↔
    ∃ text, container text v ∧ some '[' :: s = Input.ofChars text ++ t
  object {s t : Input} {v : Value} : Reads object s v t ↔
    ∃ text, container text v ∧ some '\x7b' :: s = Input.ofChars text ++ t
  opens {text : List Char} {v : Value} : container text v →
    ∃ c r, text = c :: r ∧ (c = '[' ∨ c = '\x7b')

section

variable {array object : Reader Value} {container : List Char → Value → Prop}

theorem NumberText.wellFormed {l : Literal} {text : List Char} (h : NumberText l text) :
    l.WellFormed := by
  cases h with
  | intro hformed => exact hformed

/-- The text of a number begins with its sign or a digit. -/
theorem NumberText.begins {l : Literal} {text : List Char} (h : NumberText l text) :
    ∃ c r, text = c :: r ∧ beginsNumber (some c) = true := by
  obtain ⟨hformed, -⟩ := h
  obtain ⟨d, ds, hwhole, hcanonical⟩ := hformed.whole
  cases hnegative : l.negative with
  | true => exact ⟨'-', _, by rw [if_pos rfl]; rfl, rfl⟩
  | false =>
    refine ⟨Nat.digitChar d, _, by rw [if_neg Bool.false_ne_true, hwhole]; rfl, ?_⟩
    unfold beginsNumber
    rw [digitItem?_digitChar (hcanonical.lt_ten d List.mem_cons_self)]
    exact Bool.or_true _

theorem number_sound {s t : Input} {n : Number} (h : Reads number s n t) :
    ∃ l text, NumberText l text ∧ l.Denotes Literal.float? n ∧ s = Input.ofChars text ++ t := by
  obtain ⟨l, hl, hn⟩ := reads_number.mp h
  obtain ⟨text, htext, hs⟩ := literal_sound hl
  exact ⟨l, text, htext, (toNumber_eq_ok_iff htext.wellFormed).mp hn, hs⟩

theorem reads_number_of_numberText {l : Literal} {text : List Char} {n : Number} {t : Input}
    (h : NumberText l text) (hn : l.Denotes Literal.float? n) (ht : Stops t) :
    Reads number (Input.ofChars text ++ t) n t :=
  reads_number.mpr
    ⟨l, reads_literal_of_numberText h ht, (toNumber_eq_ok_iff h.wellFormed).mpr hn⟩

theorem ofChars_word (c : Char) (w : List Char) (t : Input) :
    some c :: (w.map some ++ t) = Input.ofChars (c :: w) ++ t := rfl

/-- **What is read as a value by its parts is a scalar or a container.** -/
theorem readsFrom_sound (hcontainers : RecognizesContainers array object container) {s t : Input}
    {v : Value} (h : (valueParts array object).ReadsFrom s v t) :
    ∃ text, ((Grammar.json Literal.float?).Scalar text v ∨ container text v) ∧
      s = Input.ofChars text ++ t := by
  cases h with
  | null => exact ⟨_, Or.inl .null, ofChars_word 'n' "ull".toList t⟩
  | true => exact ⟨_, Or.inl .true, ofChars_word 't' "rue".toList t⟩
  | false => exact ⟨_, Or.inl .false, ofChars_word 'f' "alse".toList t⟩
  | string h =>
    obtain ⟨a, ha, rfl⟩ := reads_mapValue.mp h
    obtain ⟨text, htext, hs⟩ := reads_stringTail_iff_stringText.mp ha
    exact ⟨text, Or.inl (.string htext), hs⟩
  | array h =>
    obtain ⟨text, htext, hs⟩ := hcontainers.array.mp h
    exact ⟨text, Or.inr htext, hs⟩
  | object h =>
    obtain ⟨text, htext, hs⟩ := hcontainers.object.mp h
    exact ⟨text, Or.inr htext, hs⟩
  | number _ h =>
    obtain ⟨n, hn, rfl⟩ := reads_mapValue.mp h
    obtain ⟨l, text, htext, hl, hs⟩ := number_sound hn
    exact ⟨text, Or.inl (.number htext hl), hs⟩

/-- **Scalars and containers are read as values by their parts.** -/
theorem readsFrom_complete (hcontainers : RecognizesContainers array object container)
    {text : List Char} {v : Value} {t : Input}
    (h : (Grammar.json Literal.float?).Scalar text v ∨ container text v) (ht : Stops t) :
    (valueParts array object).ReadsFrom (Input.ofChars text ++ t) v t := by
  rcases h with h | h
  · cases h with
    | null => exact .null
    | true => exact .true
    | false => exact .false
    | number htext hn =>
      have hread := reads_number_of_numberText htext hn ht
      obtain ⟨c, r, rfl, hbegins⟩ := htext.begins
      exact .number hbegins (reads_mapValue.mpr ⟨_, hread, rfl⟩)
    | string htext =>
      obtain ⟨s, hs⟩ := startsMember_stringText htext t
      rw [hs]
      exact .string (reads_mapValue.mpr
        ⟨_, reads_stringTail_iff_stringText.mpr ⟨text, htext, hs.symm⟩, rfl⟩)
  · obtain ⟨c, r, rfl, rfl | rfl⟩ := hcontainers.opens h
    · exact .array (hcontainers.array.mpr ⟨_, h, rfl⟩)
    · exact .object (hcontainers.object.mpr ⟨_, h, rfl⟩)

theorem startsElement_of_ne {c : Char} (hblank : isBlank (some c) = false) (hc : c ≠ ']')
    (text : List Char) (t : Input) : StartsElement (Input.ofChars (c :: text) ++ t) :=
  ⟨some c, _, rfl, hblank, fun heq => hc (Option.some.inj heq)⟩

/-- Scalars and containers begin neither with a blank nor with the end of a list. -/
theorem startsElement_of_scalar (hopens : ∀ {text v}, container text v →
      ∃ c r, text = c :: r ∧ (c = '[' ∨ c = '\x7b'))
    {g : Grammar} {text : List Char} {v : Value} (h : g.Scalar text v ∨ container text v)
    (t : Input) : StartsElement (Input.ofChars text ++ t) := by
  rcases h with h | h
  · cases h with
    | null => exact startsElement_of_ne rfl (by decide) _ t
    | true => exact startsElement_of_ne rfl (by decide) _ t
    | false => exact startsElement_of_ne rfl (by decide) _ t
    | number htext =>
      obtain ⟨c, r, rfl, hbegins⟩ := htext.begins
      exact ⟨some c, _, rfl, isBlank_of_beginsNumber hbegins, ne_of_beginsNumber hbegins (by decide)⟩
    | string htext =>
      obtain ⟨s, hs⟩ := startsMember_stringText htext t
      exact ⟨some '"', s, hs, rfl, by decide⟩
  · obtain ⟨c, r, rfl, rfl | rfl⟩ := hopens h
    · exact startsElement_of_ne rfl (by decide) _ t
    · exact startsElement_of_ne rfl (by decide) _ t

/-- Values are recognized if their containers are. -/
theorem recognizesValues_parts (hcontainers : RecognizesContainers array object container) :
    RecognizesValues (valueParts array object).reader
      fun text v => (Grammar.json Literal.float?).Scalar text v ∨ container text v where
  sound {s t v} h := by
    obtain ⟨text, htext, hs⟩ := readsFrom_sound hcontainers (reads_parts.mp h)
    obtain ⟨before, hbefore, hfront⟩ := exists_blanks s
    exact ⟨before, text, hbefore, htext, hs ▸ hfront⟩
  starts t h := startsElement_of_scalar hcontainers.opens h t
  complete {before text v t} hbefore h ht := by
    rw [reads_parts, dropWhile_blanks hbefore,
      dropWhile_of_startsElement (startsElement_of_scalar hcontainers.opens h t)]
    exact readsFrom_complete hcontainers h ht

end

/-! ## Containers -/

theorem latest_collectMembers {α : Type} (listed : List (String × α)) :
    Latest listed (collectMembers listed) :=
  ⟨keysOrdered_collectMembers listed, lookup_collectMembers listed⟩

/-- The members of an object are those that its text lists, collected. -/
theorem latest_iff {α : Type} {listed members : List (String × α)} :
    Latest listed members ↔ members = collectMembers listed := by
  constructor
  · rintro ⟨hordered, hlookup⟩
    refine hordered.ext (keysOrdered_collectMembers listed) fun key => ?_
    rw [hlookup, lookup_collectMembers]
  · rintro rfl
    exact latest_collectMembers listed

theorem Grammar.Container.opens {g : Grammar} {inside : List Char → Value → Prop}
    {text : List Char} {v : Value} (h : g.Container inside text v) :
    ∃ c r, text = c :: r ∧ (c = '[' ∨ c = '\x7b') := by
  cases h with
  | array => exact ⟨'[', _, rfl, Or.inl rfl⟩
  | object => exact ⟨'\x7b', _, rfl, Or.inr rfl⟩

theorem recognizesContainers_tooDeep :
    RecognizesContainers (tooDeep '[') (tooDeep '\x7b') fun _ _ => False where
  array := ⟨fun h => absurd h not_reads_tooDeep, fun ⟨_, h, _⟩ => h.elim⟩
  object := ⟨fun h => absurd h not_reads_tooDeep, fun ⟨_, h, _⟩ => h.elim⟩
  opens h := h.elim

/-- **Containers are recognized if the values inside are.** -/
theorem RecognizesValues.containers {p : Reader Value} {denotes : List Char → Value → Prop}
    (h : RecognizesValues p denotes) (convert : Literal → Option Float) :
    RecognizesContainers (fun s => mapValue .array (items nextElement p true s))
      (fun s => mapValue (fun ms => .object (collectMembers ms))
        (items nextKey (member string fun _ => p) true s))
      ((Grammar.json convert).Container denotes) where
  array {s t v} := by
    rw [reads_mapValue]
    constructor
    · rintro ⟨vs, hread, rfl⟩
      obtain ⟨text, hlisted, rfl⟩ :=
        (reads_items_iff convert delimits_nextElement h.recognizes_element).mp hread
      exact ⟨_, .array hlisted, (ofChars_quoted '[' ']' text t).symm⟩
    · rintro ⟨_, htext, heq⟩
      cases htext with
      | array hlisted =>
        rw [ofChars_quoted] at heq
        exact ⟨_, (reads_items_iff convert delimits_nextElement h.recognizes_element).mpr
          ⟨_, hlisted, (List.cons.inj heq).2⟩, rfl⟩
      | object => cases (List.cons.inj heq).1
  object {s t v} := by
    rw [reads_mapValue]
    constructor
    · rintro ⟨listed, hread, rfl⟩
      obtain ⟨text, hlisted, rfl⟩ :=
        (reads_items_iff convert delimits_nextKey h.recognizes_member).mp hread
      exact ⟨_, .object hlisted trivial (latest_collectMembers listed),
        (ofChars_quoted '\x7b' '\x7d' text t).symm⟩
    · rintro ⟨_, htext, heq⟩
      cases htext with
      | array => cases (List.cons.inj heq).1
      | object hlisted _ hlatest =>
        rw [ofChars_quoted] at heq
        exact ⟨_, (reads_items_iff convert delimits_nextKey h.recognizes_member).mpr
          ⟨_, hlisted, (List.cons.inj heq).2⟩, by rw [latest_iff.mp hlatest]⟩
  opens h := h.opens

/-- **To every depth, values are read by the texts that denote them.** -/
theorem recognizesValues_valueReader :
    ∀ d, RecognizesValues (valueReader d) ((Grammar.json Literal.float?).Denotes d)
  | 0 => by
    have h := recognizesValues_parts recognizesContainers_tooDeep
    simp only [or_false] at h
    exact h
  | d + 1 => recognizesValues_parts ((recognizesValues_valueReader d).containers _)

/-- **A text denotes one value at most.** -/
theorem json_denotes_unique {d : Nat} {text : List Char} {v w : Value}
    (h : (Grammar.json Literal.float?).Denotes d text v)
    (h' : (Grammar.json Literal.float?).Denotes d text w) : v = w := by
  have hread : ∀ {v}, (Grammar.json Literal.float?).Denotes d text v →
      Reads (valueReader d) (Input.ofChars text ++ []) v [] := fun h =>
    (recognizesValues_valueReader d).recognizes_element.complete h stops_nil
  exact ((hread h).unique (hread h')).1

/-! ## Whole texts -/

/-- An object is no scalar, and one level of its text is its own. -/
theorem denotes_object_iff {g : Grammar} {d : Nat} {text : List Char}
    {members : List (String × Value)} :
    g.Denotes (d + 1) text (.object members) ↔
      ∃ inner listed, text = '\x7b' :: inner ++ ['\x7d'] ∧
        g.Listed (g.Member (g.Denotes d)) inner listed ∧ g.keys (listed.map Prod.fst) ∧
        Latest listed members := by
  constructor
  · rintro (h | h)
    · cases h
    · cases h with
      | object hlisted hkeys hlatest => exact ⟨_, _, rfl, hlisted, hkeys, hlatest⟩
  · rintro ⟨inner, listed, rfl, hlisted, hkeys, hlatest⟩
    exact Or.inr (.object hlisted hkeys hlatest)

/-- **An object is read by the texts that denote it.** Values of members that nest at most `d` deep
make an object that nests one deeper. -/
theorem reads_mapReader_iff {d : Nat} {s t : Input} {members : List (String × Value)} :
    Reads (mapReader (valueReader d)) s members t ↔
      ∃ before text, Blanks before ∧
        (Grammar.json Literal.float?).Denotes (d + 1) text (.object members) ∧
        s = Input.ofChars before ++ (Input.ofChars text ++ t) := by
  have hmember : Recognizes (member string fun _ => valueReader d) StartsMember
      ((Grammar.json Literal.float?).Member ((Grammar.json Literal.float?).Denotes d)) :=
    (recognizesValues_valueReader d).recognizes_member
  constructor
  · intro hread
    obtain ⟨r, hr, hread⟩ := reads_beginning.mp hread
    obtain ⟨listed, hitems, rfl⟩ := reads_mapValue.mp hread
    obtain ⟨inner, hlisted, rfl⟩ := (reads_items_iff _ delimits_nextKey hmember).mp hitems
    obtain ⟨-, before, hbefore, hs⟩ := dropWhile_eq_cons_iff.mp hr
    refine ⟨before, _, hbefore, denotes_object_iff.mpr
      ⟨inner, listed, rfl, hlisted, trivial, latest_collectMembers listed⟩, ?_⟩
    rw [ofChars_quoted]
    exact hs
  · rintro ⟨before, text, hbefore, hobject, rfl⟩
    obtain ⟨inner, listed, rfl, hlisted, -, hlatest⟩ := denotes_object_iff.mp hobject
    refine reads_beginning.mpr ⟨_, ?_, reads_mapValue.mpr ⟨listed,
      (reads_items_iff _ delimits_nextKey hmember).mpr ⟨inner, hlisted, rfl⟩,
      (latest_iff.mp hlatest).symm⟩⟩
    rw [dropWhile_blanks hbefore, ofChars_quoted]
    rfl

/-- **A text begins with one object at most.** -/
theorem object_unique {d : Nat} {text text' rest rest' : List Char}
    {members others : List (String × Value)}
    (h : (Grammar.json Literal.float?).Denotes (d + 1) text (.object members))
    (h' : (Grammar.json Literal.float?).Denotes (d + 1) text' (.object others))
    (heq : text ++ rest = text' ++ rest') : members = others ∧ rest = rest' := by
  have hread : Reads (mapReader (valueReader d)) (Input.ofChars (text ++ rest)) members
      (Input.ofChars rest) :=
    reads_mapReader_iff.mpr ⟨[], text, List.forall_mem_nil _, h, List.map_append⟩
  have hread' : Reads (mapReader (valueReader d)) (Input.ofChars (text' ++ rest')) others
      (Input.ofChars rest') :=
    reads_mapReader_iff.mpr ⟨[], text', List.forall_mem_nil _, h', List.map_append⟩
  rw [← heq] at hread'
  obtain ⟨hmembers, hrest⟩ := hread.unique hread'
  exact ⟨hmembers, ofChars_injective hrest⟩

/-- **The texts that are read as an object are those that denote one.** -/
theorem decode_objectReader_iff {text : String} {members : List (String × Value)} :
    decode objectReader text = .ok members ↔
      (Grammar.json Literal.float?).Padded ((Grammar.json Literal.float?).Denotes maxDepth)
        text.toList (.object members) := by
  rw [decode_ok_iff]
  constructor
  · rintro ⟨t, hread, ht⟩
    obtain ⟨before, inner, hbefore, hobject, hs⟩ := reads_mapReader_iff.mp hread
    obtain ⟨after, hafter, hrest⟩ := exists_blanks t
    rw [ht, List.append_nil] at hrest
    have htext : text.toList = before ++ inner ++ after := by
      refine ofChars_injective (hs.trans ?_)
      rw [hrest, ← ofChars_append]
      exact List.map_append.symm
    rw [htext]
    exact .intro hbefore hobject hafter
  · intro h
    generalize text.toList = chars at h
    obtain ⟨hbefore, hobject, hafter⟩ := h
    refine ⟨_, reads_mapReader_iff.mpr ⟨_, _, hbefore, hobject, ?_⟩,
      dropWhile_eq_nil_iff.mpr hafter⟩
    rw [← ofChars_append]
    exact List.map_append

/-- **Nothing but blanks may stand behind an object.** -/
theorem blanks_of_decode_objectReader {text rest : List Char}
    {members others : List (String × Value)}
    (h : (Grammar.json Literal.float?).Padded ((Grammar.json Literal.float?).Denotes maxDepth)
      text (.object members))
    (hdecode : decode objectReader (String.ofList (text ++ rest)) = .ok others) : Blanks rest := by
  cases h with
  | @intro before inner after _ hbefore hobject hafter =>
    obtain ⟨t, hread, ht⟩ := decode_ok_iff.mp hdecode
    -- reading stops behind the object, whatever follows
    have hfirst : Reads objectReader _ members (Input.ofChars (after ++ rest)) :=
      reads_mapReader_iff.mpr ⟨before, inner, hbefore, hobject, rfl⟩
    have hsplit : Input.ofChars (String.ofList (before ++ inner ++ after ++ rest)).toList
        = Input.ofChars before ++ (Input.ofChars inner ++ Input.ofChars (after ++ rest)) := by
      rw [String.toList_ofList, ← ofChars_append, List.append_assoc (before ++ inner)]
      exact List.map_append
    rw [hsplit] at hread
    obtain ⟨-, rfl⟩ := hfirst.unique hread
    exact fun c hc => dropWhile_eq_nil_iff.mp ht c (List.mem_append_right after hc)

/-- **An object begins with its brace.** -/
theorem eq_brace_of_decode_objectReader {before rest : List Char} {c : Char}
    {members : List (String × Value)} (hbefore : Blanks before) (hc : isBlank (some c) = false)
    (h : decode objectReader (String.ofList (before ++ c :: rest)) = .ok members) : c = '\x7b' := by
  obtain ⟨t, hread, -⟩ := decode_ok_iff.mp h
  obtain ⟨r, hr, -⟩ := reads_beginning.mp hread
  have hsplit : Input.ofChars (String.ofList (before ++ c :: rest)).toList
      = Input.ofChars before ++ some c :: Input.ofChars rest := by
    rw [String.toList_ofList]
    exact List.map_append
  rw [hsplit, dropWhile_blanks hbefore,
    List.dropWhile_cons_of_neg (by rw [hc]; exact Bool.false_ne_true)] at hr
  exact Option.some.inj (List.cons.inj hr).1

end SecretClient.Json
