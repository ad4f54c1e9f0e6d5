import SecretClient.Proofs.SecretPath.Collapse

/-!
# Collapsed paths as normal forms

Of all texts with the same names, the same beginning and the same end, one has no two slashes next to
each other. Collapsing finds it. Character by character, from the end of a text to its beginning, it puts
each one in front of what is collapsed already (`lead`), and so it makes no difference whether parts of a
text were collapsed before.

* `collapse_append` : texts may be collapsed before they are joined
* `eq_of_names_eq` : the text without two slashes next to each other is determined
* `collapse_slash_eq_iff` : when two texts behind a slash collapse to the same
* `path_normal_form` : all of it for paths
-/

namespace SecretClient.SecretPath

open Segment (Doubled)

variable {text s t : List Char}

/-! ## Collapsing from the end -/

/-- Puts a character in front of a collapsed text, where one slash is not put in front of another. -/
def lead (c : Char) (text : List Char) : List Char :=
  if c = '/' ∧ text.head? = some '/' then text else c :: text

theorem head?_lead (c : Char) (text : List Char) : (lead c text).head? = some c := by
  unfold lead
  split
  · next h => rw [h.2, h.1]
  · rfl

/-- A character that leads a text twice is put there once, if it is a slash. -/
theorem lead_lead (text : List Char) : lead '/' (lead '/' text) = lead '/' text :=
  if_pos ⟨rfl, head?_lead '/' text⟩

theorem collapse_cons (c : Char) (text : List Char) : collapse (c :: text) = lead c (collapse text) := by
  by_cases h : c = '/' ∧ text.head? = some '/'
  · obtain ⟨rfl, hhead⟩ := h
    obtain ⟨rest, rfl⟩ := List.head?_eq_some_iff.mp hhead
    rw [collapse, lead, if_pos ⟨rfl, (head?_collapse _).trans rfl⟩]
  · rw [lead, head?_collapse, if_neg h, collapse]
    rintro rest rfl rfl
    exact h ⟨rfl, rfl⟩

theorem collapse_eq_foldr (text : List Char) : collapse text = text.foldr lead [] := by
  induction text with
  | nil => rfl
  | cons c text ih => rw [collapse_cons, ih, List.foldr_cons]

theorem foldr_lead (c : Char) (text behind : List Char) :
    (lead c text).foldr lead behind = lead c (text.foldr lead behind) := by
  by_cases h : c = '/' ∧ text.head? = some '/'
  · obtain ⟨rfl, hhead⟩ := h
    obtain ⟨rest, rfl⟩ := List.head?_eq_some_iff.mp hhead
    rw [lead, if_pos ⟨rfl, rfl⟩, List.foldr_cons, lead_lead]
  · rw [lead, if_neg h, List.foldr_cons]

/-- In front of another text, a text counts as it is collapsed. -/
theorem foldr_collapse (text behind : List Char) :
    (collapse text).foldr lead behind = text.foldr lead behind := by
  induction text with
  | nil => rfl
  | cons c text ih => rw [collapse_cons, foldr_lead, ih, List.foldr_cons]

/-- **Collapsing twice is collapsing once.** -/
theorem collapse_collapse (text : List Char) : collapse (collapse text) = collapse text := by
  rw [collapse_eq_foldr (collapse text), foldr_collapse, ← collapse_eq_foldr]

/-- **Texts may be collapsed before they are joined.** Only a run over the joint is left to collapse. -/
theorem collapse_append (s t : List Char) :
    collapse (s ++ t) = collapse (collapse s ++ collapse t) := by
  have hfold : ∀ s t : List Char, collapse (s ++ t) = s.foldr lead (collapse t) := by
    intro s t
    rw [collapse_eq_foldr, List.foldr_append, ← collapse_eq_foldr]
  rw [hfold, hfold, foldr_collapse, collapse_collapse]

/-! ## What is left of a text -/

/-- Collapsing drops characters and changes none. -/
theorem collapse_sublist (text : List Char) : (collapse text).Sublist text := by
  fun_induction collapse text with
  | case1 rest ih => exact ih.cons '/'
  | case2 c rest _ ih => exact ih.cons_cons c
  | case3 => exact .slnil

/-- **A text stays as it is** exactly if no two of its slashes stand next to each other. -/
theorem collapse_eq_self_iff : collapse text = text ↔ ¬ Doubled text := by
  constructor
  · intro h
    rw [← h]
    exact not_doubled_collapse text
  · intro h
    fun_induction collapse text with
    | case1 rest ih => exact absurd (Segment.doubled_cons.mpr (Or.inl ⟨rfl, rfl⟩)) h
    | case2 c rest _ ih => rw [ih fun hrest => h (Segment.doubled_cons.mpr (Or.inr hrest))]
    | case3 => rfl

theorem getLast?_collapse (text : List Char) : (collapse text).getLast? = text.getLast? := by
  fun_induction collapse text with
  | case1 rest ih => rw [ih, List.getLast?_cons_cons]
  | case2 c rest _ ih => rw [List.getLast?_cons, List.getLast?_cons, ih]
  | case3 => rfl

/-! ## The text of some names -/

/-- The empty piece behind the last slash of a text that ends in one. -/
def ending (text : List Char) : List (List Char) :=
  if text.getLast? = some '/' then [[]] else []

/-- **A text behind a slash is its names**, if no two slashes stand next to each other. -/
theorem eq_text_names (h : ¬ Doubled ('/' :: text)) :
    '/' :: text = Segment.text (names text ++ ending ('/' :: text)) := by
  have htext := Segment.text_splitOn text
  have hslash : ∀ piece ∈ text.splitOn '/', '/' ∉ piece :=
    fun piece => Segment.slash_not_mem_of_mem_splitOn
  rw [← htext, Segment.doubled_text_iff hslash] at h
  rw [ending, names, ← htext]
  rcases List.eq_nil_or_concat (text.splitOn '/') with hnil | ⟨front, last, hsplit⟩
  · exact absurd hnil (List.splitOn_ne_nil _ _)
  · rw [List.concat_eq_append] at hsplit
    rw [hsplit, List.dropLast_concat] at h
    rw [hsplit, List.forall_mem_append] at hslash
    have hfront : front.filter (· ≠ []) = front :=
      List.filter_eq_self.mpr fun piece hpiece => decide_eq_true fun hnil => h (hnil ▸ hpiece)
    have hends : Segment.text (front ++ [last]) = Segment.text front ++ '/' :: last := by
      simp [Segment.text]
    rw [hsplit, List.filter_append, hfront, hends, List.getLast?_append_cons]
    -- only the last piece can be empty, and then there is a slash in front of it and nothing behind
    cases last with
    | nil => simp [Segment.text]
    | cons c last =>
      have hlast : (c :: last).getLast? ≠ some '/' :=
        fun hmem => hslash.2 _ List.mem_cons_self (List.mem_of_getLast? hmem)
      rw [List.getLast?_cons_cons, if_neg hlast, List.append_nil, ← hends]
      rfl

theorem ending_congr (h : s.getLast? = some '/' ↔ t.getLast? = some '/') : ending s = ending t := by
  unfold ending
  simp only [h]

theorem collapse_slash (text : List Char) :
    collapse ('/' :: text) = Segment.text (names text ++ ending ('/' :: text)) := by
  obtain ⟨rest, hrest⟩ := exists_collapse_slash text
  have hdoubled := not_doubled_collapse ('/' :: text)
  have hnames := names_collapse ('/' :: text)
  have hlast := getLast?_collapse ('/' :: text)
  rw [hrest] at hdoubled hnames hlast
  rw [names_slash, names_slash] at hnames
  have hends : ending ('/' :: rest) = ending ('/' :: text) := ending_congr (by rw [hlast])
  rw [hrest, eq_text_names hdoubled, hnames, hends]

/-- **Two texts behind a slash collapse to the same** exactly if they have the same names and both or none
end in a slash. -/
theorem collapse_slash_eq_iff : collapse ('/' :: s) = collapse ('/' :: t) ↔
    names s = names t ∧ (('/' :: s).getLast? = some '/' ↔ ('/' :: t).getLast? = some '/') := by
  constructor
  · intro h
    rw [← names_slash s, ← names_collapse, ← getLast?_collapse ('/' :: s), h, names_collapse,
      names_slash, getLast?_collapse]
    exact ⟨rfl, Iff.rfl⟩
  · rintro ⟨hnames, hlast⟩
    rw [collapse_slash, collapse_slash, hnames, ending_congr hlast]

/-- A text that does not begin with a slash has a name, unless it is empty. -/
theorem eq_nil_of_names_eq_nil (hnames : names text = []) (hfirst : text.head? ≠ some '/') :
    text = [] := by
  cases text with
  | nil => rfl
  | cons c rest =>
    have hc : c ≠ '/' := fun heq => hfirst (congrArg some heq)
    obtain ⟨first, pieces, hpieces⟩ := List.exists_cons_of_ne_nil (List.splitOn_ne_nil '/' rest)
    rw [names, Segment.splitOn_of_ne hc, hpieces, List.modifyHead_cons,
      List.filter_cons_of_pos (by simp)] at hnames
    cases hnames

/-- **There is one text without two slashes next to each other** for some names, a beginning and an end. -/
theorem eq_of_names_eq (hs : ¬ Doubled s) (ht : ¬ Doubled t) (hnames : names s = names t)
    (hfirst : s.head? = some '/' ↔ t.head? = some '/')
    (hlast : s.getLast? = some '/' ↔ t.getLast? = some '/') : s = t := by
  by_cases hslash : s.head? = some '/'
  · obtain ⟨s, rfl⟩ := List.head?_eq_some_iff.mp hslash
    obtain ⟨t, rfl⟩ := List.head?_eq_some_iff.mp (hfirst.mp hslash)
    rw [names_slash, names_slash] at hnames
    rw [eq_text_names hs, eq_text_names ht, hnames, ending_congr hlast]
  · have hslash' := hfirst.not.mp hslash
    by_cases hempty : s = []
    · subst hempty
      exact (eq_nil_of_names_eq_nil hnames.symm hslash').symm
    · have hempty' : t ≠ [] := by
        rintro rfl
        exact hempty (eq_nil_of_names_eq_nil hnames hslash)
      -- a slash in front of both makes texts of their names out of them
      have hbehind : ∀ {text : List Char}, ¬ Doubled text → text.head? ≠ some '/' →
          ¬ Doubled ('/' :: text) := by
        intro text hdoubled hhead
        rw [Segment.doubled_cons]
        rintro (⟨-, hhead'⟩ | hdoubled')
        · exact hhead hhead'
        · exact hdoubled hdoubled'
      have hends : ('/' :: s).getLast? = some '/' ↔ ('/' :: t).getLast? = some '/' := by
        rw [List.getLast?_cons_of_ne_nil hempty, List.getLast?_cons_of_ne_nil hempty', hlast]
      have htext := eq_text_names (hbehind hs hslash)
      rw [hnames, ending_congr hends, ← eq_text_names (hbehind ht hslash')] at htext
      exact (List.cons.inj htext).2

/-! ## Paths of requests -/

/-- The path of a request: what collapses behind a slash, behind `/v1`. Only for the empty path there is no
slash. -/
theorem apiChars_of_ne_nil (h : text ≠ []) :
    apiChars text = '/' :: (api ++ collapse ('/' :: text)) := by
  have hne : collapse text ≠ [] := by
    intro hnil
    have hhead := head?_collapse text
    rw [hnil] at hhead
    exact h (List.head?_eq_none_iff.mp hhead.symm)
  obtain ⟨c, rest, hcons⟩ := List.exists_cons_of_ne_nil hne
  rw [collapse_cons, apiChars, hcons]
  by_cases hc : c = '/'
  · subst hc
    rw [lead, if_pos ⟨rfl, rfl⟩]
    rfl
  · have hlead : lead '/' (c :: rest) = '/' :: c :: rest :=
      if_neg fun hslash => hc (Option.some.inj hslash.2)
    rw [hlead]
    split
    · next heq => cases heq
    · next heq => exact absurd (List.cons.inj heq).1 hc
    · rfl

/-- **When two texts have one path of a request.** -/
theorem apiChars_eq_iff : apiChars s = apiChars t ↔
    s = [] ∧ t = [] ∨ s ≠ [] ∧ t ≠ [] ∧ collapse ('/' :: s) = collapse ('/' :: t) := by
  have hempty : ∀ {text : List Char}, text ≠ [] → apiChars text ≠ apiChars [] := by
    intro text hne heq
    obtain ⟨rest, hrest⟩ := exists_collapse_slash text
    rw [apiChars_of_ne_nil hne, hrest] at heq
    cases heq
  by_cases hs : s = [] <;> by_cases ht : t = []
  · simp [hs, ht]
  · simp [hs, ht, (hempty ht).symm]
  · simp [hs, ht, hempty hs]
  · rw [apiChars_of_ne_nil hs, apiChars_of_ne_nil ht, List.cons_inj_right, List.append_cancel_left_eq]
    simp [hs, ht]

/-- Texts have one path of a request exactly if they are empty or not, have the same names, and end in a
slash or not, both alike. -/
theorem apiChars_eq_iff_names : apiChars s = apiChars t ↔
    (s = [] ↔ t = []) ∧ names s = names t ∧
      (s.getLast? = some '/' ↔ t.getLast? = some '/') := by
  rw [apiChars_eq_iff, collapse_slash_eq_iff]
  by_cases hs : s = [] <;> by_cases ht : t = []
  · simp [hs, ht]
  · simp [hs, ht]
  · simp [hs, ht]
  · rw [List.getLast?_cons_of_ne_nil hs, List.getLast?_cons_of_ne_nil ht]
    simp [hs, ht]

/-! ## Paths -/

theorem toList_normalize (path : String) : (normalize path).toList = collapse path.toList :=
  String.toList_ofList

/-- What a path is normalized to, by its names and its ends. -/
theorem normalize_eq_iff {path normal : String} : normalize path = normal ↔
    ¬ Doubled normal.toList ∧ names normal.toList = names path.toList ∧
      (normal.toList.head? = some '/' ↔ path.toList.head? = some '/') ∧
      (normal.toList.getLast? = some '/' ↔ path.toList.getLast? = some '/') := by
  constructor
  · rintro rfl
    rw [toList_normalize, names_collapse, head?_collapse, getLast?_collapse]
    exact ⟨not_doubled_collapse _, rfl, Iff.rfl, Iff.rfl⟩
  · rintro ⟨hdoubled, hnames, hfirst, hlast⟩
    rw [← String.toList_inj, toList_normalize]
    refine eq_of_names_eq (not_doubled_collapse _) hdoubled ?_ ?_ ?_
    · rw [names_collapse, hnames]
    · rw [head?_collapse, hfirst]
    · rw [getLast?_collapse, hlast]

/-- **A path has one normal form**: the text without two slashes next to each other that has the names
of the path, and that begins and ends with a slash exactly if the path does. It is its own normal form,
it is not longer than the path, and it can be taken before paths are joined. -/
theorem path_normal_form :
    (∀ path normal : String, normalize path = normal ↔
      ¬ Doubled normal.toList ∧ names normal.toList = names path.toList ∧
        (normal.toList.head? = some '/' ↔ path.toList.head? = some '/') ∧
        (normal.toList.getLast? = some '/' ↔ path.toList.getLast? = some '/')) ∧
    (∀ path, normalize (normalize path) = normalize path) ∧
    (∀ path, normalize path = path ↔ ¬ Doubled path.toList) ∧
    (∀ path, (normalize path).toList.Sublist path.toList ∧
      (normalize path).utf8ByteSize ≤ path.utf8ByteSize) ∧
    ∀ path path', normalize (path ++ path') = normalize (normalize path ++ normalize path') := by
  refine ⟨fun path normal => normalize_eq_iff, fun path => ?_, fun path => ?_, fun path => ?_,
    fun path path' => ?_⟩
  · rw [normalize, toList_normalize, collapse_collapse, normalize]
  · rw [← String.toList_inj, toList_normalize, collapse_eq_self_iff]
  · have hsublist : (normalize path).toList.Sublist path.toList := by
      rw [toList_normalize]
      exact collapse_sublist path.toList
    refine ⟨hsublist, ?_⟩
    have hsize := String.utf8Len_le_of_sublist hsublist
    rwa [← String.utf8ByteSize_ofList, ← String.utf8ByteSize_ofList, String.ofList_toList,
      String.ofList_toList] at hsize
  · rw [← String.toList_inj, toList_normalize, toList_normalize, String.toList_append,
      String.toList_append, toList_normalize, toList_normalize, ← collapse_append]

end SecretClient.SecretPath
