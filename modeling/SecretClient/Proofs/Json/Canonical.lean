import SecretClient.Proofs.Json.Recognition
import SecretClient.Proofs.Json.Roundtrip

/-!
# The text of a value

What is written for a value is one text for all texts that denote it. `Value.Same` says when two
values are equal as JSON values: an object is taken as the values that its keys have, a list as the
elements in its places. Values that were read keep their members in order, and for them this is
equality.

* `same_iff_eq`, `text_eq_iff_same` : equal values have one text, and other values have another one
* `denotes_chars` : the text has no gaps, and the keys of each object in the order of their bytes
* `printable_chars` : the text holds no control characters
* `json_denotes_chars` : the text denotes the value that it was written for
* `eq_of_listed_chars` : the text of an object lists no members but its own
-/

namespace SecretClient.Json

/-! ## Equal values -/

/-- The values are equal as JSON values. -/
inductive Value.Same : Value → Value → Prop
  | null : Same .null .null
  | bool (b : Bool) : Same (.bool b) (.bool b)
  | number (n : Number) : Same (.number n) (.number n)
  | string (s : String) : Same (.string s) (.string s)
  /-- The lists have the same places, with the same elements in them. -/
  | array {vs ws : List Value} : vs.length = ws.length →
      (∀ (i : Nat) v w, vs[i]? = some v → ws[i]? = some w → Same v w) → Same (.array vs) (.array ws)
  /-- The objects have the same keys, with the same values. -/
  | object {ms ns : List (String × Value)} :
      (∀ key, ms.lookup key = none ↔ ns.lookup key = none) →
      (∀ key v w, ms.lookup key = some v → ns.lookup key = some w → Same v w) →
      Same (.object ms) (.object ns)

theorem mem_of_lookup {α : Type} {key : String} {a : α} {members : List (String × α)}
    (h : members.lookup key = some a) : (key, a) ∈ members := by
  obtain ⟨before, behind, rfl, -⟩ := List.lookup_eq_some_iff.mp h
  exact List.mem_append_right _ List.mem_cons_self

/-- Every value that was read is the same as itself. -/
theorem Value.Fits.same {d : Nat} {v : Value} (h : v.Fits d) : v.Same v := by
  induction h with
  | null => exact .null
  | bool b => exact .bool b
  | integer => exact .number _
  | float x => exact .number _
  | string s => exact .string s
  | array _ ih =>
    refine .array rfl fun i v w hv hw => ?_
    cases hv.symm.trans hw
    exact ih v (List.mem_of_getElem? hv)
  | object _ _ ih =>
    refine .object (fun _ => Iff.rfl) fun key v w hv hw => ?_
    cases hv.symm.trans hw
    exact ih _ (mem_of_lookup hv)

/-- Members in order, and their values, are the same if the values of each key are. -/
theorem Value.Same.eq {v w : Value} (h : v.Same w) :
    ∀ {d e : Nat}, v.Fits d → w.Fits e → v = w := by
  induction h with
  | null => intros; rfl
  | bool => intros; rfl
  | number => intros; rfl
  | string => intros; rfl
  | @array vs ws hlength _ ih =>
    intro d e hv hw
    cases hv with
    | array hvs =>
      cases hw with
      | array hws =>
        refine congrArg Value.array (List.ext_getElem hlength fun i hi hj => ?_)
        exact ih i _ _ (List.getElem?_eq_getElem hi) (List.getElem?_eq_getElem hj)
          (hvs _ (List.getElem_mem hi)) (hws _ (List.getElem_mem hj))
  | @object ms ns hkeys _ ih =>
    intro d e hv hw
    cases hv with
    | object hmordered hms =>
      cases hw with
      | object hnordered hns =>
        refine congrArg Value.object (hmordered.ext hnordered fun key => ?_)
        cases hm : ms.lookup key with
        | none => exact ((hkeys key).mp hm).symm
        | some v =>
          cases hn : ns.lookup key with
          | none => rw [(hkeys key).mpr hn] at hm; cases hm
          | some w =>
            exact congrArg some
              (ih key v w hm hn (hms _ (mem_of_lookup hm)) (hns _ (mem_of_lookup hn)))

/-- **Values that were read are the same only if they are equal.** -/
theorem same_iff_eq {d e : Nat} {v w : Value} (hv : v.Fits d) (hw : w.Fits e) :
    v.Same w ↔ v = w := by
  constructor
  · intro h
    exact h.eq hv hw
  · rintro rfl
    exact hv.same

/-- **The same values have one text, and other values have another one.** -/
theorem text_eq_iff_same {v w : Value} (hv : v.Fits maxDepth) (hw : w.Fits maxDepth)
    (hvfloat : ¬ v.HasFloat) (hwfloat : ¬ w.HasFloat) : v.text = w.text ↔ v.Same w := by
  rw [same_iff_eq hv hw]
  constructor
  · intro h
    have hparse := parse_text hv hvfloat
    rw [h, parse_text hw hwfloat] at hparse
    exact (Except.ok.inj hparse).symm
  · rintro rfl
    rfl

/-! ## The text in the grammar -/

/-- What is written for a string is one of its texts. -/
theorem stringText_stringText (s : String) : StringText (stringText s) s := by
  obtain ⟨text, htext, heq⟩ := reads_stringTail_iff_stringText.mp (reads_stringTail s [])
  rw [← ofChars_stringText, List.append_nil, List.append_nil] at heq
  rw [ofChars_injective heq]
  exact htext

theorem numberText_chars {l : Literal} (h : l.WellFormed) : NumberText l l.chars := by
  obtain ⟨text, htext, heq⟩ := literal_sound (reads_literal h stops_nil)
  rw [List.append_nil, List.append_nil] at heq
  rw [ofChars_injective heq]
  exact htext

section

variable {α : Type} {item : List Char → α → Prop} {text : α → List Char}

theorem padded_compact {chars : List Char} {a : α} (h : item chars a) :
    Grammar.compact.Padded item chars a := by
  have hpadded : Grammar.compact.Padded item ([] ++ chars ++ []) a := .intro rfl h rfl
  rwa [List.nil_append, List.append_nil] at hpadded

/-- Items are listed with commas between them. -/
theorem separated_intercalate {as : List α} :
    ∀ {a : α}, (∀ b ∈ a :: as, item (text b) b) →
      Grammar.Separated item ([','].intercalate ((a :: as).map text)) (a :: as) := by
  induction as with
  | nil =>
    intro a h
    rw [List.map_singleton, List.intercalate_singleton]
    exact .last (h a List.mem_cons_self)
  | cons b as ih =>
    intro a h
    rw [List.map_cons, List.map_cons, List.intercalate_cons_cons]
    rw [List.append_assoc]
    exact .more (h a List.mem_cons_self) (ih fun c hc => h c (List.mem_cons_of_mem _ hc))

theorem listed_intercalate {as : List α} (h : ∀ a ∈ as, item (text a) a) :
    Grammar.compact.Listed item ([','].intercalate (as.map text)) as := by
  cases as with
  | nil => exact .empty rfl
  | cons a as => exact .items (separated_intercalate fun b hb => padded_compact (h b hb))

end

theorem member_compact {α : Type} {value : List Char → α → Prop} {key : String} {text : List Char}
    {a : α} (h : value text a) : Grammar.compact.Member value (memberText key text) (key, a) := by
  have hmember : Grammar.compact.Member value (stringText key ++ [] ++ ':' :: ([] ++ text)) (key, a) :=
    .intro (stringText_stringText key) rfl rfl h
  rwa [List.append_nil, List.nil_append] at hmember

theorem keys_compact {α : Type} {members : List (String × α)} (h : KeysOrdered members) :
    Grammar.compact.keys (members.map Prod.fst) :=
  List.pairwise_map.mpr (h.imp fun hlt => Utf8.encode_lt_encode hlt)

/-- **The text of a value has no gaps and orders the keys of objects by their bytes.** -/
theorem denotes_chars {d : Nat} {v : Value} (h : v.Fits d) :
    Grammar.compact.Denotes d v.chars v := by
  have hnumber : ∀ n, Grammar.compact.Scalar (Value.chars (.number n)) (.number n) := by
    intro n
    obtain ⟨l, hformed, hchars⟩ := exists_literal n
    rw [Value.chars, ← hchars]
    exact .number (numberText_chars hformed) hchars
  induction h with
  | null => exact Grammar.Scalar.null.denotes _
  | bool b =>
    cases b with
    | false => exact Grammar.Scalar.false.denotes _
    | true => exact Grammar.Scalar.true.denotes _
  | integer => exact (hnumber _).denotes _
  | float x => exact (hnumber _).denotes _
  | string s => exact (Grammar.Scalar.string (stringText_stringText s)).denotes _
  | array _ ih =>
    rw [Value.chars, itemTexts_eq_map]
    exact Or.inr (.array (listed_intercalate ih))
  | object hordered _ ih =>
    rw [Value.chars, memberTexts_eq_map]
    exact Or.inr (.object (listed_intercalate fun m hm => member_compact (ih m hm))
      (keys_compact hordered) (latest_iff.mpr (collectMembers_of_keysOrdered hordered).symm))

/-- **The text of a value denotes it.** -/
theorem json_denotes_chars {d : Nat} {v : Value} (h : v.Fits d) (hfloat : ¬ v.HasFloat) :
    (Grammar.json Literal.float?).Denotes d v.chars v := by
  obtain ⟨text, htext, heq⟩ := (recognizesValues_valueReader d).recognizes_element.sound
    (startsElement_of_opens (opens_chars v) []) (reads_chars h hfloat [] stops_nil)
  rw [List.append_nil, List.append_nil] at heq
  rw [ofChars_injective heq]
  exact htext

theorem padded_chars {d : Nat} {v : Value} (h : v.Fits d) (hfloat : ¬ v.HasFloat) :
    (Grammar.json Literal.float?).Padded ((Grammar.json Literal.float?).Denotes d) v.chars v := by
  have hblanks : Grammar.Blanks [] := List.forall_mem_nil _
  have hpadded : (Grammar.json Literal.float?).Padded ((Grammar.json Literal.float?).Denotes d)
      ([] ++ v.chars ++ []) v := .intro hblanks (json_denotes_chars h hfloat) hblanks
  rwa [List.nil_append, List.append_nil] at hpadded

/-- **The text of an object lists its members and no others**, in their order and each of them once. -/
theorem eq_of_listed_chars {d : Nat} {members listed : List (String × Value)} {inner : List Char}
    (hfits : ∀ m ∈ members, m.2.Fits d) (hfloat : ∀ m ∈ members, ¬ m.2.HasFloat)
    (htext : (Value.object members).chars = '\x7b' :: inner ++ ['\x7d'])
    (h : (Grammar.json Literal.float?).Listed
      ((Grammar.json Literal.float?).Member ((Grammar.json Literal.float?).Denotes d)) inner listed) :
    listed = members := by
  rw [Value.chars, memberTexts_eq_map, listText] at htext
  have hinner : [','].intercalate (members.map fun m => memberText m.1 m.2.chars) = inner :=
    (List.cons.inj (List.append_cancel_right htext)).2
  -- one reader takes what the text lists, and it takes the members
  have hread : Reads (items nextKey (member string fun _ => valueReader d) true)
      (Input.ofChars inner ++ [some '\x7d']) listed [] :=
    (reads_items_iff _ delimits_nextKey
      (recognizesValues_valueReader d).recognizes_member).mpr ⟨inner, h, rfl⟩
  have hmembers := reads_members (fun m hm => reads_chars (hfits m hm) (hfloat m hm)) []
  rw [hinner] at hmembers
  exact (hread.unique hmembers).1

/-! ## Control characters -/

/-- The text holds no control characters. -/
def Printable (text : List Char) : Prop := ∀ c ∈ text, 0x20 ≤ c.toNat

theorem printable_of_all {text : List Char} (h : text.all (fun c => 0x20 ≤ c.toNat) = true) :
    Printable text :=
  fun c hc => of_decide_eq_true (List.all_eq_true.mp h c hc)

theorem printable_append {text rest : List Char} (h : Printable text) (h' : Printable rest) :
    Printable (text ++ rest) := by
  intro c hc
  rcases List.mem_append.mp hc with hc | hc
  · exact h c hc
  · exact h' c hc

theorem printable_cons {c : Char} {text : List Char} (hc : 0x20 ≤ c.toNat) (h : Printable text) :
    Printable (c :: text) := by
  intro e he
  rcases List.mem_cons.mp he with rfl | he
  · exact hc
  · exact h e he

theorem printable_digitChar {d : Nat} (h : d < 16) : 0x20 ≤ (Nat.digitChar d).toNat := by
  have hall : ∀ d < 16, 0x20 ≤ (Nat.digitChar d).toNat := by decide
  exact hall d h

theorem printable_digitChars {ds : List Nat} (h : ∀ d ∈ ds, d < 10) : Printable (digitChars ds) := by
  intro c hc
  obtain ⟨d, hd, rfl⟩ := List.mem_map.mp hc
  have hlt := h d hd
  exact printable_digitChar (by omega)

theorem printable_literal {l : Literal} (h : l.WellFormed) : Printable l.chars := by
  obtain ⟨⟨d, ds, hwhole, hcanonical⟩, hfraction, hexponent⟩ := h
  unfold Literal.chars
  refine printable_append ?_ (printable_append ?_ (printable_append ?_ ?_))
  · split
    · exact printable_cons (by decide) (List.forall_mem_nil _)
    · exact List.forall_mem_nil _
  · rw [hwhole]
    exact printable_digitChars hcanonical.lt_ten
  · cases hdigits : l.fraction with
    | nil => exact List.forall_mem_nil _
    | cons e es =>
      rw [hdigits] at hfraction
      exact printable_cons (by decide) (printable_digitChars hfraction)
  · cases hscale : l.exponent with
    | none => exact List.forall_mem_nil _
    | some e =>
      refine printable_cons (by decide) (printable_cons ?_ ?_)
      · split <;> decide
      · exact printable_digitChars (hexponent e hscale).2

theorem printable_escapedChar (c : Char) : Printable (escapedChar c) := by
  unfold escapedChar
  split
  case h_8 =>
    split
    · next hcontrol =>
      refine printable_append (printable_of_all (by decide)) ?_
      exact printable_cons (printable_digitChar (by omega))
        (printable_cons (printable_digitChar (by omega)) (List.forall_mem_nil _))
    · next hplain => exact printable_cons (not_lt.mp hplain) (List.forall_mem_nil _)
  all_goals exact printable_of_all (by decide)

theorem printable_stringText (s : String) : Printable (stringText s) := by
  refine printable_append (printable_cons (by decide) ?_)
    (printable_cons (by decide) (List.forall_mem_nil _))
  intro c hc
  obtain ⟨d, -, hd⟩ := List.mem_flatMap.mp hc
  exact printable_escapedChar d c hd

theorem printable_intercalate {texts : List (List Char)} (h : ∀ text ∈ texts, Printable text) :
    Printable ([','].intercalate texts) := by
  cases texts with
  | nil => exact List.forall_mem_nil _
  | cons text texts =>
    rw [intercalate_cons]
    refine printable_append (h text List.mem_cons_self) fun c hc => ?_
    obtain ⟨other, hother, hc⟩ := List.mem_flatMap.mp hc
    exact printable_cons (by decide) (h other (List.mem_cons_of_mem _ hother)) c hc

theorem printable_listText {opening closing : Char} (hopening : 0x20 ≤ opening.toNat)
    (hclosing : 0x20 ≤ closing.toNat) {texts : List (List Char)}
    (h : ∀ text ∈ texts, Printable text) : Printable (listText opening closing texts) :=
  printable_append (printable_cons hopening (printable_intercalate h))
    (printable_cons hclosing (List.forall_mem_nil _))

/-- **The text of a value holds no control characters.** -/
theorem printable_chars {d : Nat} {v : Value} (h : v.Fits d) : Printable v.chars := by
  have hnumber : ∀ n, Printable (Value.chars (.number n)) := by
    intro n
    obtain ⟨l, hformed, hchars⟩ := exists_literal n
    rw [Value.chars, ← hchars]
    exact printable_literal hformed
  induction h with
  | null => exact printable_of_all (by decide)
  | bool b =>
    cases b with
    | false => exact printable_of_all (by decide)
    | true => exact printable_of_all (by decide)
  | integer => exact hnumber _
  | float x => exact hnumber _
  | string s => exact printable_stringText s
  | array _ ih =>
    rw [Value.chars, itemTexts_eq_map]
    refine printable_listText (by decide) (by decide) fun text htext => ?_
    obtain ⟨v, hv, rfl⟩ := List.mem_map.mp htext
    exact ih v hv
  | object _ _ ih =>
    rw [Value.chars, memberTexts_eq_map]
    refine printable_listText (by decide) (by decide) fun text htext => ?_
    obtain ⟨m, hm, rfl⟩ := List.mem_map.mp htext
    exact printable_append (printable_stringText m.1) (printable_cons (by decide) (ih m hm))

end SecretClient.Json
