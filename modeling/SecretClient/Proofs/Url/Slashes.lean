import SecretClient.Proofs.Url.Segment

/-!
# Texts of segments

The text of segments has a slash in front of each, so two slashes stand next to each other exactly where
a segment is empty and another one follows.

* `splitOn_text`, `text_splitOn` : segments and the pieces between the slashes of their text
* `doubled_text_iff` : when a text of segments has two slashes next to each other
* `encode_text` : segments are encoded as their text is, character by character
-/

namespace SecretClient.Segment

variable {segments : List (List Char)} {s rest : List Char}

/-! ## Pieces between slashes -/

theorem text_eq_intercalate (segments : List (List Char)) :
    text segments = ['/'].intercalate ([] :: segments) := by
  induction segments with
  | nil => rfl
  | cons s segments ih =>
    rw [List.intercalate_cons_cons, List.nil_append, text, List.flatMap_cons, ← text, ih]
    cases segments with
    | nil => simp
    | cons t segments => simp [List.intercalate_cons_cons]

/-- Segments are the pieces between the slashes of their text. -/
theorem splitOn_text (h : ∀ s ∈ segments, '/' ∉ s) : (text segments).splitOn '/' = [] :: segments := by
  rw [text_eq_intercalate]
  exact List.splitOn_intercalate '/' (List.forall_mem_cons.mpr ⟨List.not_mem_nil, h⟩)
    (List.cons_ne_nil _ _)

theorem splitOn_slash (rest : List Char) : ('/' :: rest).splitOn '/' = [] :: rest.splitOn '/' := by
  rw [List.splitOn_eq_splitOnP, List.splitOn_eq_splitOnP, List.splitOnP_cons_eq_if_modifyHead,
    if_pos (by decide)]

theorem splitOn_of_ne {c : Char} (h : c ≠ '/') (rest : List Char) :
    (c :: rest).splitOn '/' = (rest.splitOn '/').modifyHead (c :: ·) := by
  rw [List.splitOn_eq_splitOnP, List.splitOn_eq_splitOnP, List.splitOnP_cons_eq_if_modifyHead,
    if_neg (by simpa using h)]

theorem slash_not_mem_of_mem_splitOn {piece : List Char} (h : piece ∈ rest.splitOn '/') :
    '/' ∉ piece := by
  rw [List.splitOn_eq_splitOnP] at h
  exact fun hmem => absurd (Pieces.of_mem_splitOnP h _ hmem).2 (by decide)

/-- The pieces between the slashes of a text write the text. -/
theorem text_splitOn (rest : List Char) : text (rest.splitOn '/') = '/' :: rest := by
  rw [text_eq_intercalate, ← splitOn_slash, List.intercalate_splitOn]

/-! ## Slashes next to each other -/

/-- Two slashes of a text stand next to each other. -/
def Doubled (text : List Char) : Prop := ['/', '/'] <:+: text

instance (text : List Char) : Decidable (Doubled text) :=
  List.instDecidableIsInfixOfDecidableEq ['/', '/'] text

theorem not_doubled_nil : ¬ Doubled [] := by decide

theorem doubled_cons {c : Char} :
    Doubled (c :: rest) ↔ (c = '/' ∧ rest.head? = some '/') ∨ Doubled rest := by
  rw [Doubled, List.infix_cons_iff, List.cons_prefix_cons]
  refine or_congr (and_congr eq_comm ?_) Iff.rfl
  cases rest with
  | nil => simp
  | cons d rest => simp [List.cons_prefix_cons, eq_comm]

theorem doubled_append (h : '/' ∉ s) : Doubled (s ++ rest) ↔ Doubled rest := by
  induction s with
  | nil => rfl
  | cons c s ih =>
    have hc : c ≠ '/' := fun heq => h (heq ▸ List.mem_cons_self)
    rw [List.cons_append, doubled_cons, ih fun hmem => h (List.mem_cons_of_mem _ hmem)]
    simp [hc]

theorem head?_append_text (h : '/' ∉ s) :
    (s ++ text segments).head? = some '/' ↔ s = [] ∧ segments ≠ [] := by
  cases s with
  | nil => cases segments <;> simp [text]
  | cons c s =>
    have hc : c ≠ '/' := fun heq => h (heq ▸ List.mem_cons_self)
    simp [hc]

/-- **Two slashes of a text of segments stand next to each other** exactly if a segment other than the
last one is empty. -/
theorem doubled_text_iff (h : ∀ s ∈ segments, '/' ∉ s) :
    Doubled (text segments) ↔ [] ∈ segments.dropLast := by
  induction segments with
  | nil => simp [text, not_doubled_nil]
  | cons s segments ih =>
    obtain ⟨hs, hsegments⟩ := List.forall_mem_cons.mp h
    have htext : text (s :: segments) = '/' :: (s ++ text segments) := rfl
    rw [htext, doubled_cons, head?_append_text hs, doubled_append hs, ih hsegments]
    cases segments with
    | nil => simp
    | cons t segments => simp [eq_comm]

/-- A text without slashes at its ends and without two next to each other has no empty pieces. -/
theorem nil_not_mem_splitOn (hne : rest ≠ []) (hfirst : rest.head? ≠ some '/')
    (hlast : rest.getLast? ≠ some '/') (hdoubled : ¬ Doubled rest) : [] ∉ rest.splitOn '/' := by
  have hslash : ¬ Doubled ('/' :: rest) := by
    rw [doubled_cons]
    rintro (⟨-, hhead⟩ | hrest)
    · exact hfirst hhead
    · exact hdoubled hrest
  rw [← text_splitOn, doubled_text_iff fun s => slash_not_mem_of_mem_splitOn] at hslash
  have hpieces := text_splitOn rest
  rcases List.eq_nil_or_concat (rest.splitOn '/') with hnil | ⟨front, last, hsplit⟩
  · rw [hnil]
    exact List.not_mem_nil
  · rw [List.concat_eq_append] at hsplit
    rw [hsplit, List.dropLast_concat] at hslash
    rw [hsplit, List.mem_append, List.mem_singleton]
    rintro (hmem | rfl)
    · exact hslash hmem
    · -- an empty piece at the end has a slash in front of it
      have htext : text (front ++ [[]]) = text front ++ ['/'] := by simp [text]
      rw [hsplit, htext] at hpieces
      have hends : (text front ++ ['/']).getLast? = (['/'] ++ rest).getLast? :=
        congrArg List.getLast? hpieces
      rw [List.getLast?_concat, List.getLast?_append_of_ne_nil _ hne] at hends
      exact hlast hends.symm

/-- A text of slashes without two next to each other is one slash. -/
theorem eq_slash (hne : rest ≠ []) (hall : ∀ c ∈ rest, c = '/') (hdoubled : ¬ Doubled rest) :
    rest = ['/'] := by
  obtain ⟨c, rest, rfl⟩ := List.exists_cons_of_ne_nil hne
  obtain ⟨rfl, hrest⟩ := List.forall_mem_cons.mp hall
  cases rest with
  | nil => rfl
  | cons d rest =>
    obtain rfl := hrest d List.mem_cons_self
    exact absurd (doubled_cons.mpr (Or.inl ⟨rfl, rfl⟩)) hdoubled

/-! ## Encoded segments -/

/-- **Segments are encoded as their text is.** -/
theorem encode_text (segments : List (List Char)) :
    Percent.encode EncodeSet.path (text segments)
      = text (segments.map (Percent.encode EncodeSet.path)) := by
  induction segments with
  | nil => rfl
  | cons s segments ih =>
    have htext : ∀ t rest, text (t :: rest) = '/' :: (t ++ text rest) := fun _ _ => rfl
    rw [htext, encode_cons_of_not_mem (by decide), Percent.encode_append, ih, List.map_cons, htext]

/-- Only the empty piece is written as the empty one. -/
theorem encode_eq_nil_iff : Percent.encode EncodeSet.path s = [] ↔ s = [] := by
  cases s with
  | nil => simp [Percent.encode]
  | cons c s =>
    cases hset : EncodeSet.path c with
    | true =>
      obtain ⟨rest, hrest⟩ := exists_encode_cons hset s
      simp [hrest]
    | false => simp [encode_cons_of_not_mem hset]

theorem slash_mem_encode_iff : '/' ∈ Percent.encode EncodeSet.path s ↔ '/' ∈ s := by
  constructor
  · intro h
    rcases Percent.mem_encode h with ⟨hmem, -⟩ | hescape
    · exact hmem
    · exact absurd hescape (by decide)
  · intro h
    exact List.mem_flatMap.mpr ⟨'/', h, by decide⟩

/-- The pieces between the slashes of an encoded text are those of the text, encoded. -/
theorem splitOn_encode (s : List Char) :
    (Percent.encode EncodeSet.path s).splitOn '/'
      = (s.splitOn '/').map (Percent.encode EncodeSet.path) := by
  have hslash : ∀ piece ∈ (s.splitOn '/').map (Percent.encode EncodeSet.path), '/' ∉ piece := by
    intro piece hpiece
    obtain ⟨plain, hplain, rfl⟩ := List.mem_map.mp hpiece
    rw [slash_mem_encode_iff]
    exact slash_not_mem_of_mem_splitOn hplain
  have hpieces := splitOn_text hslash
  rw [← encode_text, text_splitOn, encode_cons_of_not_mem (by decide), splitOn_slash] at hpieces
  exact (List.cons.inj hpieces).2

theorem head?_encode_iff :
    (Percent.encode EncodeSet.path s).head? = some '/' ↔ s.head? = some '/' := by
  cases s with
  | nil => rfl
  | cons c s =>
    cases hset : EncodeSet.path c with
    | true =>
      obtain ⟨rest, hrest⟩ := exists_encode_cons hset s
      have hc : c ≠ '/' := fun heq => absurd (heq ▸ hset) (by decide)
      simp [hrest, hc]
    | false => simp [encode_cons_of_not_mem hset]

/-- Encoding puts no slashes next to each other. -/
theorem doubled_encode_iff : Doubled (Percent.encode EncodeSet.path s) ↔ Doubled s := by
  induction s with
  | nil => rfl
  | cons c s ih =>
    by_cases hc : c = '/'
    · subst hc
      rw [encode_cons_of_not_mem (by decide), doubled_cons, doubled_cons, head?_encode_iff, ih]
    · have hchar : '/' ∉ Percent.char EncodeSet.path c := by
        have hmem := slash_mem_encode_iff (s := [c])
        rw [Percent.encode, List.flatMap_singleton, List.mem_singleton] at hmem
        exact fun h => hc (hmem.mp h).symm
      rw [Percent.encode_cons, doubled_append hchar, ih, doubled_cons]
      simp [hc]

/-- A text ends in a slash exactly if its encoding does. -/
theorem getLast?_encode_iff :
    (Percent.encode EncodeSet.path s).getLast? = some '/' ↔ s.getLast? = some '/' := by
  rcases List.eq_nil_or_concat s with rfl | ⟨s, c, rfl⟩
  · rfl
  · have hlast : Percent.encode EncodeSet.path [c] ≠ [] :=
      fun h => List.cons_ne_nil c [] (encode_eq_nil_iff.mp h)
    rw [List.concat_eq_append, Percent.encode_append, List.getLast?_append_of_ne_nil _ hlast,
      List.getLast?_concat]
    constructor
    · intro h
      have hc := slash_mem_encode_iff.mp (List.mem_of_getLast? h)
      rw [List.mem_singleton.mp hc]
    · intro h
      cases h
      rfl

end SecretClient.Segment
