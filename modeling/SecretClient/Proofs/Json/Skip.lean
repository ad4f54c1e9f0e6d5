import SecretClient.Proofs.Json.Roundtrip
import SecretClient.Proofs.Json.Spelling

/-!
# Values that are passed

The text of a value is passed whatever the value is: its strings by looking for their ends, and its
numbers without converting them, so that no floating point number is out of range. Nor is any value
too deep, for the depth that is allowed is the length of what is left.

* `reads_skippedTail_of_stringTail` : a string that can be read is passed
* `reads_skipValue` : the text of a value is passed
-/

namespace SecretClient.Json

open Utf8 (mapM_eq_some_iff)

/-! ## Strings -/

theorem reads_skippedPiece_letter {l c : Char} (h : LetterEscape l c) (t : Input) :
    Reads skippedPiece (some '\\' :: some l :: t) (some ()) t := by
  unfold Reads skippedPiece
  rw [outcome_stringPiece, if_neg (by decide), if_pos rfl]
  exact map_eq_ok_iff.mpr ⟨((), t), reads_escape_iff.mpr (Or.inr ⟨l, c, rfl, h, rfl⟩), rfl⟩

theorem reads_skippedPiece_fourHex {digits : List Char} {n : Nat} (h : FourHex digits n)
    (t : Input) : Reads skippedPiece (some '\\' :: some 'u' :: (Input.ofChars digits ++ t)) (some ()) t := by
  unfold Reads skippedPiece
  rw [outcome_stringPiece, if_neg (by decide), if_pos rfl]
  refine map_eq_ok_iff.mpr ⟨((), t), reads_escape_iff.mpr (Or.inl ⟨_, rfl, ?_⟩), rfl⟩
  exact reads_mapValue.mpr ⟨n, reads_fourDigits_iff.mpr ⟨digits, h, rfl⟩, rfl⟩

/-- The pieces of a string that is passed: a character, what is none, or an escape that may be half of
a pair. -/
inductive Skipped : Input → Prop
  | plain {c : Char} : 0x20 ≤ c.toNat → c ≠ '"' → c ≠ '\\' → Skipped [some c]
  | broken : Skipped [none]
  | letter {l c : Char} : LetterEscape l c → Skipped [some '\\', some l]
  | number {digits : List Char} {n : Nat} : FourHex digits n →
      Skipped (some '\\' :: some 'u' :: Input.ofChars digits)

/-- **A piece of a string that is passed is its end or one of these.** -/
theorem reads_skippedPiece_iff {s t : Input} {o : Option Unit} :
    Reads skippedPiece s o t ↔
      (o = none ∧ s = some '"' :: t) ∨ o = some () ∧ ∃ piece, Skipped piece ∧ s = piece ++ t := by
  constructor
  · intro h
    cases s with
    | nil => cases h
    | cons i s =>
      cases i with
      | none =>
        cases h
        exact Or.inr ⟨rfl, [none], .broken, rfl⟩
      | some c =>
        unfold Reads skippedPiece at h
        rw [outcome_stringPiece] at h
        split at h
        · next hc =>
          cases h
          exact Or.inl ⟨rfl, by rw [hc]⟩
        · next hquote =>
          split at h
          · next hc =>
            obtain ⟨⟨⟨⟩, u⟩, hescape, heq⟩ := map_eq_ok_iff.mp h
            cases heq
            refine Or.inr ⟨rfl, ?_⟩
            rcases reads_escape_iff.mp hescape with ⟨r, rfl, hr⟩ | ⟨l, x, rfl, hl, -⟩
            · obtain ⟨n, hn, -⟩ := reads_mapValue.mp hr
              obtain ⟨digits, hdigits, rfl⟩ := reads_fourDigits_iff.mp hn
              exact ⟨_, .number hdigits, by rw [hc]; rfl⟩
            · exact ⟨_, .letter hl, by rw [hc]; rfl⟩
          · next hbackslash =>
            split at h
            · cases h
            · next hcontrol =>
              cases h
              exact Or.inr ⟨rfl, [some c], .plain (by omega) hquote hbackslash, rfl⟩
  · rintro (⟨rfl, rfl⟩ | ⟨rfl, piece, h, rfl⟩)
    · rfl
    · cases h with
      | @plain c hcontrol hquote hbackslash =>
        change Reads skippedPiece (some c :: t) (some ()) t
        unfold Reads skippedPiece
        rw [outcome_stringPiece, if_neg hquote, if_neg hbackslash, if_neg (by omega)]
      | broken => rfl
      | letter h => exact reads_skippedPiece_letter h t
      | number h => exact reads_skippedPiece_fourHex h t

theorem reads_skippedTail_piece {s r t : Input} (h : Reads skippedPiece s (some ()) r)
    (hrest : Reads skippedTail r () t) : Reads skippedTail s () t := by
  obtain ⟨units, hunits, -⟩ := reads_mapValue.mp hrest
  exact reads_mapValue.mpr ⟨() :: units, reads_pieces.mpr (Or.inr ⟨_, _, _, rfl, h, hunits⟩), rfl⟩

/-- A spelling of a character is passed, a pair of halves as two pieces. -/
theorem reads_skippedTail_charText {text : List Char} {c : Char} (h : CharText text c) {s t : Input}
    (hrest : Reads skippedTail s () t) : Reads skippedTail (Input.ofChars text ++ s) () t := by
  cases h with
  | plain hcontrol hquote hbackslash =>
    have hplain := Skipped.plain hcontrol hquote hbackslash
    exact reads_skippedTail_piece (reads_skippedPiece_iff.mpr (Or.inr ⟨rfl, _, hplain, rfl⟩)) hrest
  | letter h => exact reads_skippedTail_piece (reads_skippedPiece_letter h s) hrest
  | number h => exact reads_skippedTail_piece (reads_skippedPiece_fourHex h s) hrest
  | pair hhigh _ _ hlow =>
    rw [ofChars_cons, ofChars_cons, ofChars_append, ofChars_cons, ofChars_cons]
    exact reads_skippedTail_piece (reads_skippedPiece_fourHex hhigh _)
      (reads_skippedTail_piece (reads_skippedPiece_fourHex hlow s) hrest)

/-- **A string that is a text is passed to the same place.** -/
theorem reads_skippedTail_of_stringTail {s t : Input} {a : String} (h : Reads stringTail s a t) :
    Reads skippedTail s () t := by
  obtain ⟨text, htext, rfl⟩ := reads_stringTail_iff.mp h
  clear h
  generalize a.toList = cs at htext
  induction htext with
  | nil => exact reads_mapValue.mpr ⟨[], reads_pieces.mpr (Or.inl ⟨rfl, rfl⟩), rfl⟩
  | cons hchar _ ih =>
    rw [ofChars_append]
    exact reads_skippedTail_charText hchar ih

theorem reads_skippedTail (s : String) (t : Input) :
    Reads skippedTail (Input.ofChars (s.toList.flatMap escapedChar) ++ some '"' :: t) () t :=
  reads_skippedTail_of_stringTail (reads_stringTail s t)

/-! ## Values -/

/-- At every depth, what is passed is passed by its parts. -/
theorem exists_skipParts (d : Nat) :
    ∃ array object, skipReader d = (skipParts array object).reader := by
  cases d with
  | zero => exact ⟨_, _, rfl⟩
  | succ d => exact ⟨_, _, rfl⟩

/-- **The text of a value is passed, floating point numbers included.** -/
theorem reads_skipReader {d : Nat} {v : Value} (h : v.Fits d) :
    ∀ t, Stops t → Reads (skipReader d) (Input.ofChars v.chars ++ t) () t := by
  have hnumber : ∀ d n t, Stops t →
      Reads (skipReader d) (Input.ofChars (Value.number n).chars ++ t) () t := by
    intro d n t ht
    obtain ⟨array, object, hreader⟩ := exists_skipParts d
    obtain ⟨c, r, htext, hbegins⟩ := exists_numberText n
    obtain ⟨l, hformed, hchars⟩ := exists_literal n
    have hread := reads_literal hformed ht
    rw [hchars, htext] at hread
    rw [hreader, Value.chars, htext]
    refine (outcome_reader_number _ hbegins _).trans ?_
    exact reads_mapValue.mpr ⟨l, hread, rfl⟩
  induction h with
  | @null d =>
    intro t _
    obtain ⟨array, object, hreader⟩ := exists_skipParts d
    rw [hreader]
    exact reads_parts.mpr .null
  | @bool d b =>
    intro t _
    obtain ⟨array, object, hreader⟩ := exists_skipParts d
    rw [hreader]
    cases b with
    | false => exact reads_parts.mpr .false
    | true => exact reads_parts.mpr .true
  | integer => exact hnumber _ _
  | float x => exact hnumber _ _
  | @string d s =>
    intro t _
    obtain ⟨array, object, hreader⟩ := exists_skipParts d
    rw [hreader, Value.chars, ofChars_stringText]
    exact reads_parts.mpr (.string (reads_skippedTail s t))
  | @array d vs _ ih =>
    intro t _
    rw [Value.chars, itemTexts_eq_map, ofChars_listText]
    refine reads_parts.mpr (.array (reads_mapValue.mpr ⟨vs.map fun _ => (), ?_, rfl⟩))
    refine (reads_items_iff_of_laid (f := fun _ => some ()) (fun v hv => follows_of_reads (ih v hv))
      (laid_elements vs t) _ _).mpr ⟨mapM_eq_some_iff.mpr ?_, rfl⟩
    rw [List.map_map]
    rfl
  | @object d members _ _ ih =>
    intro t _
    rw [Value.chars, memberTexts_eq_map, ofChars_listText]
    refine reads_parts.mpr (.object (reads_mapValue.mpr ⟨members.map fun _ => ((), ()), ?_, rfl⟩))
    have hkey : ∀ (name : String) t,
        Reads (afterFirst skippedTail) (Input.ofChars (stringText name) ++ t) () t := by
      intro name t
      rw [ofChars_stringText]
      exact reads_afterFirst.mpr (reads_skippedTail name t)
    refine (reads_items_iff_of_laid (f := fun _ => some ((), ()))
      (fun m hm => follows_member (hkey m.1) (follows_of_reads (ih m hm)))
      (laid_members members t) _ _).mpr ⟨mapM_eq_some_iff.mpr ?_, rfl⟩
    rw [List.map_map]
    rfl

/-! ## The depth of a text -/

theorem length_le_intercalate {text : List Char} {texts : List (List Char)} (h : text ∈ texts) :
    text.length ≤ ([','].intercalate texts).length := by
  induction texts with
  | nil => cases h
  | cons first texts ih =>
    cases texts with
    | nil =>
      rw [List.mem_singleton.mp h, List.intercalate_singleton]
    | cons second texts =>
      rw [List.intercalate_cons_cons, List.length_append, List.length_append]
      rcases List.mem_cons.mp h with rfl | h
      · omega
      · have hle := ih h
        omega

theorem exists_length_listText (opening closing : Char) (texts : List (List Char)) :
    ∃ n, (listText opening closing texts).length = n + 1 := ⟨_, rfl⟩

theorem length_lt_listText (opening closing : Char) {text : List Char} {texts : List (List Char)}
    (h : text ∈ texts) : text.length < (listText opening closing texts).length := by
  have hle := length_le_intercalate h
  simp only [listText, List.length_append, List.length_cons, List.length_nil]
  omega

/-- No value nests deeper than its text is long. -/
theorem fits_length {d : Nat} {v : Value} (h : v.Fits d) : v.Fits v.chars.length := by
  induction h with
  | null => exact .null
  | bool b => exact .bool b
  | integer hmin hmax => exact .integer hmin hmax
  | float x => exact .float x
  | string s => exact .string s
  | @array d vs _ ih =>
    rw [Value.chars, itemTexts_eq_map]
    obtain ⟨n, hn⟩ := exists_length_listText '[' ']' (vs.map Value.chars)
    rw [hn]
    refine .array fun v hv => (ih v hv).mono ?_
    have hlt := length_lt_listText '[' ']' (List.mem_map_of_mem (f := Value.chars) hv)
    omega
  | @object d members hordered _ ih =>
    rw [Value.chars, memberTexts_eq_map]
    obtain ⟨n, hn⟩ :=
      exists_length_listText '\x7b' '\x7d' (members.map fun m => memberText m.1 m.2.chars)
    rw [hn]
    refine .object hordered fun m hm => (ih m hm).mono ?_
    have hlt := length_lt_listText '\x7b' '\x7d'
      (List.mem_map_of_mem (f := fun m : String × Value => memberText m.1 m.2.chars) hm)
    have hmember : m.2.chars.length ≤ (memberText m.1 m.2.chars).length := by
      simp only [memberText, List.length_append, List.length_cons]
      omega
    omega

/-- **The text of a value is passed, however deep it nests.** -/
theorem reads_skipValue {d : Nat} {v : Value} (h : v.Fits d) {t : Input} (ht : Stops t) :
    Reads skipValue (Input.ofChars v.chars ++ t) () t := by
  refine reads_skipReader ((fits_length h).mono ?_) t ht
  simp [Input.ofChars]

end SecretClient.Json
