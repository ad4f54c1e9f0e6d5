import SecretClient.Proofs.SecretPath
import SecretClient.Proofs.Url.Slashes

/-!
# Collapsed paths

What collapsing runs of slashes takes away from a path, and what it keeps.

* `not_doubled_apiChars` : no two slashes of the path of a request stand next to each other as a text
* `names_apiChars` : the names of a path arrive in order behind `v1`
* `rootedAt_of_isPlain` : a path without dot segments and without the characters that a reader of URLs
  changes is read as its characters are encoded, one by one
-/

namespace SecretClient.SecretPath

open Segment

/-- The pieces between the slashes of a text that are not empty. -/
def names (text : List Char) : List (List Char) := (text.splitOn '/').filter (· ≠ [])

/-! ## Collapsing -/

theorem head?_collapse (text : List Char) : (collapse text).head? = text.head? := by
  fun_induction collapse text with
  | case1 rest ih => exact ih
  | case2 | case3 => rfl

/-- **Collapsing leaves no two slashes next to each other.** -/
theorem not_doubled_collapse (text : List Char) : ¬ Doubled (collapse text) := by
  fun_induction collapse text with
  | case1 rest ih => exact ih
  | case2 c rest hrun ih =>
    rw [doubled_cons, head?_collapse]
    rintro (⟨rfl, hhead⟩ | hdoubled)
    · obtain ⟨rest', rfl⟩ := List.head?_eq_some_iff.mp hhead
      exact hrun rest' rfl rfl
    · exact ih hdoubled
  | case3 => exact not_doubled_nil

/-- Collapsing takes empty pieces away and nothing else. The piece at the beginning, which a character
in front would belong to, stays even if it is empty. -/
theorem splitOn_collapse (text : List Char) :
    ∃ first rest rest', text.splitOn '/' = first :: rest ∧
      (collapse text).splitOn '/' = first :: rest' ∧
      rest'.filter (· ≠ []) = rest.filter (· ≠ []) := by
  fun_induction collapse text with
  | case1 text ih =>
    obtain ⟨first, rest, rest', hrest, hrest', hnames⟩ := ih
    rw [splitOn_slash] at hrest
    obtain ⟨rfl, rfl⟩ := List.cons.inj hrest
    refine ⟨[], _, rest', splitOn_slash _, hrest', ?_⟩
    rw [splitOn_slash, hnames]
    rfl
  | case2 c text hrun ih =>
    obtain ⟨first, rest, rest', hrest, hrest', hnames⟩ := ih
    by_cases hc : c = '/'
    · subst hc
      refine ⟨[], _, _, splitOn_slash _, splitOn_slash _, ?_⟩
      rw [hrest, hrest', List.filter_cons, List.filter_cons, hnames]
    · refine ⟨c :: first, rest, rest', ?_, ?_, hnames⟩
      · rw [splitOn_of_ne hc, hrest, List.modifyHead_cons]
      · rw [splitOn_of_ne hc, hrest', List.modifyHead_cons]
  | case3 => exact ⟨[], [], [], rfl, rfl, rfl⟩

/-- **Collapsing keeps the names of a path**, in their order. -/
theorem names_collapse (text : List Char) : names (collapse text) = names text := by
  obtain ⟨first, rest, rest', hrest, hrest', hnames⟩ := splitOn_collapse text
  rw [names, names, hrest, hrest', List.filter_cons, List.filter_cons, hnames]

theorem names_encode (text : List Char) : names (Percent.encode EncodeSet.path text)
    = (names text).map (Percent.encode EncodeSet.path) := by
  rw [names, names, splitOn_encode, List.filter_map]
  simp only [Function.comp_def, ne_eq, encode_eq_nil_iff]

/-! ## The path of a request -/

theorem names_slash (text : List Char) : names ('/' :: text) = names text := by
  rw [names, splitOn_slash]
  rfl

theorem names_text {segments : List (List Char)} (h : ∀ s ∈ segments, '/' ∉ s) :
    names (text segments) = segments.filter (· ≠ []) := by
  rw [names, splitOn_text h]
  rfl

theorem slash_api (rest : List Char) :
    '/' :: (api ++ '/' :: rest) = text (api :: rest.splitOn '/') := by
  rw [← text_splitOn rest]
  rfl

/-- **The names of a path arrive in order** behind `v1`. -/
theorem names_apiChars (path : String) :
    names (apiChars path.toList) = api :: names path.toList := by
  rw [← names_collapse path.toList]
  rcases apiChars_cases path with ⟨hchars, -, hnil⟩ | ⟨rest, hchars, -, hcollapse⟩
  · rw [hnil, hchars]
    rfl
  · have hnames : names (collapse path.toList) = names rest := by
      rcases hcollapse with hcollapse | ⟨hcollapse, -⟩
      · rw [hcollapse, names_slash]
      · rw [hcollapse]
    have hslash : ∀ s ∈ api :: rest.splitOn '/', '/' ∉ s :=
      List.forall_mem_cons.mpr ⟨by decide, fun s hs => slash_not_mem_of_mem_splitOn hs⟩
    rw [hchars, slash_api, names_text hslash, List.filter_cons, if_pos (by decide), hnames]
    rfl

/-- **No two slashes of the path of a request stand next to each other**, as a text. -/
theorem not_doubled_apiChars (path : String) : ¬ Doubled (apiChars path.toList) := by
  have hapi : '/' ∉ api := by decide
  rcases apiChars_cases path with ⟨hchars, -⟩ | ⟨rest, hchars, -, hcollapse⟩
  · rw [hchars]
    decide
  · have hrest : ¬ Doubled ('/' :: rest) := by
      rcases hcollapse with hcollapse | ⟨hcollapse, -, hhead⟩
      · rw [← hcollapse]
        exact not_doubled_collapse path.toList
      · rw [doubled_cons]
        rintro (⟨-, hslash⟩ | hdoubled)
        · exact hhead hslash
        · rw [← hcollapse] at hdoubled
          exact not_doubled_collapse path.toList hdoubled
    rw [hchars, doubled_cons, doubled_append hapi]
    rintro (⟨-, hslash⟩ | hdoubled)
    · cases hslash
    · exact hrest hdoubled

/-- The path of a request ends in a slash exactly if the collapsed path does. -/
theorem getLast?_apiChars_iff (path : String) :
    (apiChars path.toList).getLast? = some '/' ↔ (collapse path.toList).getLast? = some '/' := by
  rcases apiChars_cases path with ⟨hchars, -, hnil⟩ | ⟨rest, hchars, -, hcollapse⟩
  · rw [hnil, hchars]
    decide
  · have hne : '/' :: rest ≠ [] := List.cons_ne_nil _ _
    rw [hchars, ← List.cons_append, List.getLast?_append_of_ne_nil _ hne]
    rcases hcollapse with hcollapse | ⟨hcollapse, hrest, -⟩
    · rw [hcollapse]
    · rw [hcollapse, ← List.singleton_append, List.getLast?_append_of_ne_nil _ hrest]

/-! ## Plain paths -/

/-- A text that a reader of URLs cuts at its slashes and nowhere else, and of which it drops nothing. -/
def IsPlain (text : List Char) : Prop := ∀ c ∈ text, c ∉ ['\\', '\t', '\n', '\r']

instance (text : List Char) : Decidable (IsPlain text) :=
  List.decidableBAll (· ∉ ['\\', '\t', '\n', '\r']) text

theorem piecesOf_of_isPlain {text : List Char} (h : IsPlain text) :
    piecesOf text = text.splitOn '/' := by
  have hplain : ∀ c ∈ text, c ≠ '\\' ∧ c ≠ '\t' ∧ c ≠ '\n' ∧ c ≠ '\r' := fun c hc => by
    simpa only [List.mem_cons, List.not_mem_nil, or_false, not_or] using h c hc
  have hstripped : Url.stripped text = text :=
    List.filter_eq_self.mpr fun c hc => decide_eq_true (hplain c hc).2
  rw [piecesOf, hstripped, List.splitOn_eq_splitOnP]
  refine Pieces.splitOnP_congr fun c hc => ?_
  simp [SchemeKind.separates, (hplain c hc).1]

theorem isPlain_collapse {text : List Char} (h : IsPlain text) : IsPlain (collapse text) := by
  fun_induction collapse text with
  | case1 rest ih => exact ih fun c hc => h c (List.mem_cons_of_mem _ hc)
  | case2 c rest hrun ih =>
    obtain ⟨hc, hrest⟩ := List.forall_mem_cons.mp h
    exact List.forall_mem_cons.mpr ⟨hc, ih hrest⟩
  | case3 => exact h

variable {path : String}

/-- The pieces of a plain path write the path of its request. -/
theorem apiChars_of_isPlain (h : IsPlain path.toList) :
    apiChars path.toList = text (api :: pieces path) := by
  have hcollapsed := isPlain_collapse h
  rcases apiChars_cases path with ⟨hchars, hpieces, -⟩ | ⟨rest, hchars, hpieces, hcollapse⟩
  · rw [hchars, hpieces]
    rfl
  · have hrest : IsPlain rest := by
      rcases hcollapse with hcollapse | ⟨hcollapse, -⟩ <;> rw [hcollapse] at hcollapsed
      · exact fun c hc => hcollapsed c (List.mem_cons_of_mem _ hc)
      · exact hcollapsed
    rw [hchars, hpieces, piecesOf_of_isPlain hrest, slash_api]

theorem slash_not_mem_of_mem_piecesOf {text piece : List Char} (h : piece ∈ piecesOf text) :
    '/' ∉ piece :=
  fun hmem => absurd (Pieces.of_mem_splitOnP h _ hmem).2 (by decide)

theorem slash_not_mem_of_mem_pieces : ∀ piece ∈ api :: pieces path, '/' ∉ piece := by
  refine List.forall_mem_cons.mpr ⟨by decide, fun piece hpiece => ?_⟩
  rcases apiChars_cases path with ⟨-, hpieces, -⟩ | ⟨rest, -, hpieces, -⟩ <;> rw [hpieces] at hpiece
  · cases hpiece
  · exact slash_not_mem_of_mem_piecesOf hpiece

/-- The pieces of a plain path that are not empty are its names. -/
theorem names_of_isPlain (h : IsPlain path.toList) : (pieces path).filter (· ≠ []) = names path.toList := by
  have hnames := names_apiChars path
  rw [apiChars_of_isPlain h, names_text slash_not_mem_of_mem_pieces, List.filter_cons,
    if_pos (by decide)] at hnames
  exact (List.cons.inj hnames).2

/-- **A plain path without dot segments** leaves its pieces, each of them encoded. -/
theorem rootedAt_of_isPlain (h : IsPlain path.toList)
    (hdots : ∀ piece ∈ path.toList.splitOn '/', ¬ IsDotSegment piece) :
    Url.rootedAt .special (Url.stripped (apiChars path.toList))
      = (api :: pieces path).map (Percent.encode EncodeSet.path) := by
  have hnotDots : ∀ piece ∈ pieces path, dots? piece ≠ some 1 ∧ dots? piece ≠ some 2 := by
    intro piece hpiece
    rw [← not_or, ← isDotSegment_iff]
    intro hdot
    -- a dot segment is not empty, and so it is a name of the path
    have hne : piece ≠ [] := by
      rintro rfl
      exact absurd hdot (by decide)
    have hname : piece ∈ (pieces path).filter (· ≠ []) :=
      List.mem_filter.mpr ⟨hpiece, decide_eq_true hne⟩
    rw [names_of_isPlain h] at hname
    exact hdots piece (List.mem_filter.mp hname).1 hdot
  rw [rootedAt_apiChars, resolve_of_notDots hnotDots, List.reverse_append, List.reverse_reverse]
  rfl

end SecretClient.SecretPath
