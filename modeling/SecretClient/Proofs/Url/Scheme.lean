import SecretClient.Url.Parse

/-!
# The scheme of a URL

A URL that was read has a scheme in its written form, and keeps it when its text is read again,
whatever stands in its other parts.

* `isScheme_of_parse` : the scheme of a URL that was read is a scheme in lower case
* `scheme_of_parse_text` : a text that begins with such a scheme is read as a URL with it
-/

namespace SecretClient.Url

/-! ## Characters of schemes -/

/-- The characters that a scheme is written with. -/
def isSchemeChar (c : Char) : Bool := c.isAlphanum || c == '+' || c == '-' || c == '.'

/-- A scheme in its written form: a letter and more characters, in lower case. -/
structure IsScheme (scheme : String) : Prop where
  first : ∃ c rest, scheme.toList = c :: rest ∧ c.isAlpha = true
  chars : ∀ c ∈ scheme.toList, isSchemeChar c = true ∧ c.toLower = c

theorem toNat_toLower (c : Char) :
    c.toLower.toNat = if 65 ≤ c.toNat ∧ c.toNat ≤ 90 then c.toNat + 32 else c.toNat := by
  unfold Char.toLower
  split
  · next h =>
    have hupper : 65 ≤ c.toNat ∧ c.toNat ≤ 90 := by simpa [UInt32.le_iff_toNat_le] using h
    rw [if_pos hupper]
    show (c.val + 32).toNat = _
    rw [UInt32.toNat_add, Char.toNat_val]
    simp
    omega
  · next h =>
    rw [if_neg]
    simpa [UInt32.le_iff_toNat_le] using h

theorem isAlpha_iff {c : Char} :
    c.isAlpha = true ↔ (65 ≤ c.toNat ∧ c.toNat ≤ 90) ∨ (97 ≤ c.toNat ∧ c.toNat ≤ 122) := by
  have halpha : c.isAlpha
      = (decide (65 ≤ c.val ∧ c.val ≤ 90) || (decide (97 ≤ c.val) && decide (c.val ≤ 122))) := rfl
  rw [halpha]
  simp [UInt32.le_iff_toNat_le]

theorem isSchemeChar_iff {c : Char} :
    isSchemeChar c = true ↔ (65 ≤ c.toNat ∧ c.toNat ≤ 90) ∨ (97 ≤ c.toNat ∧ c.toNat ≤ 122) ∨
      (48 ≤ c.toNat ∧ c.toNat ≤ 57) ∨ c.toNat = 43 ∨ c.toNat = 45 ∨ c.toNat = 46 := by
  simp only [isSchemeChar, Char.isAlphanum, Bool.or_eq_true, isAlpha_iff, beq_iff_eq,
    ← Char.toNat_inj]
  simp [Char.isDigit, UInt32.le_iff_toNat_le, or_assoc]

theorem isSchemeChar_toLower {c : Char} (h : isSchemeChar c = true) :
    isSchemeChar c.toLower = true := by
  rw [isSchemeChar_iff] at *
  rw [toNat_toLower]
  split <;> omega

theorem isAlpha_toLower {c : Char} (h : c.isAlpha = true) : c.toLower.isAlpha = true := by
  rw [isAlpha_iff] at *
  rw [toNat_toLower]
  split <;> omega

theorem toLower_toLower (c : Char) : c.toLower.toLower = c.toLower := by
  rw [← Char.toNat_inj, toNat_toLower, if_neg]
  rw [toNat_toLower]
  split <;> omega

/-! ## Reading a scheme -/

/-- The scheme is what the scheme characters at the beginning write, if a colon ends them. -/
theorem scheme?_eq (text : List Char) :
    scheme? text =
      match text.takeWhile isSchemeChar, text.drop (text.takeWhile isSchemeChar).length with
      | first :: _, ':' :: rest =>
        if first.isAlpha then
          some (String.ofList ((text.takeWhile isSchemeChar).map Char.toLower), rest)
        else none
      | _, _ => none := rfl

theorem isScheme_of_scheme? {text rest : List Char} {scheme : String}
    (h : scheme? text = some (scheme, rest)) : IsScheme scheme := by
  have hname : ∀ c ∈ text.takeWhile isSchemeChar, isSchemeChar c = true :=
    List.all_eq_true.mp List.all_takeWhile
  rw [scheme?_eq] at h
  generalize text.takeWhile isSchemeChar = name at h hname
  split at h
  · next first name _ _ =>
    split at h
    · next hfirst =>
      cases h
      refine ⟨⟨first.toLower, name.map Char.toLower, by simp, isAlpha_toLower hfirst⟩, ?_⟩
      intro c hc
      rw [String.toList_ofList] at hc
      obtain ⟨d, hd, rfl⟩ := List.mem_map.mp hc
      exact ⟨isSchemeChar_toLower (hname d hd), toLower_toLower d⟩
    · cases h
  · cases h

/-- A scheme in its written form is read as itself. -/
theorem scheme?_of_isScheme {scheme : String} (h : IsScheme scheme) (rest : List Char) :
    scheme? (scheme.toList ++ ':' :: rest) = some (scheme, rest) := by
  obtain ⟨first, name, hname, hfirst⟩ := h.first
  have htake : (scheme.toList ++ ':' :: rest).takeWhile isSchemeChar = scheme.toList := by
    rw [List.takeWhile_append_of_pos fun c hc => (h.chars c hc).1,
      List.takeWhile_cons_of_neg (by decide), List.append_nil]
  have hlower : scheme.toList.map Char.toLower = scheme.toList := by
    rw [List.map_congr_left fun c hc => (h.chars c hc).2, List.map_id']
  rw [scheme?_eq, htake, List.drop_left, hlower, String.ofList_toList]
  simp only [hname, hfirst, if_true]

/-! ## Texts as they are read -/

theorem dropWhile_of_forall_not {p : Char → Bool} {l : List Char} (h : ∀ c ∈ l, p c = false) :
    l.dropWhile p = l := by
  cases l with
  | nil => rfl
  | cons c l => exact List.dropWhile_cons_of_neg (by simp [h c List.mem_cons_self])

theorem dropWhile_append_of_forall_not {p : Char → Bool} {l : List Char}
    (h : ∀ c ∈ l, p c = false) (t : List Char) : (t ++ l).dropWhile p = t.dropWhile p ++ l := by
  rw [List.dropWhile_append, dropWhile_of_forall_not h]
  split
  · next hempty => rw [List.isEmpty_iff.mp hempty, List.nil_append]
  · rfl

/-- A text without blanks and controls holds nothing that is left out. -/
theorem stripped_of_visible {text : List Char} (h : ∀ c ∈ text, 0x20 < c.toNat) :
    stripped text = text := by
  refine List.filter_eq_self.mpr fun c hc => ?_
  have hvisible := h c hc
  have htab : c ≠ '\t' := by rintro rfl; exact absurd hvisible (by decide)
  have hline : c ≠ '\n' := by rintro rfl; exact absurd hvisible (by decide)
  have hreturn : c ≠ '\r' := by rintro rfl; exact absurd hvisible (by decide)
  simp [htab, hline, hreturn]

/-- Preparing a text keeps what it begins with, if no character of that is a blank or a control. -/
theorem exists_prepared {c : Char} {front : List Char} (h : ∀ d ∈ c :: front, 0x20 < d.toNat)
    (rest : List Char) : ∃ rest', prepared (c :: front ++ rest) = c :: front ++ rest' := by
  have hblank : ∀ d ∈ c :: front, decide (d.toNat ≤ 0x20) = false := by
    intro d hd
    simpa using h d hd
  unfold prepared
  dsimp only
  have hhead : (c :: front ++ rest).dropWhile (fun d => decide (d.toNat ≤ 0x20))
      = c :: front ++ rest :=
    List.dropWhile_cons_of_neg (by simp [hblank c List.mem_cons_self])
  rw [hhead, List.reverse_append,
    dropWhile_append_of_forall_not fun d hd => hblank d (List.mem_reverse.mp hd),
    List.reverse_append, List.reverse_reverse]
  refine ⟨stripped (rest.reverse.dropWhile fun d => decide (d.toNat ≤ 0x20)).reverse, ?_⟩
  rw [stripped, List.filter_append]
  exact congrArg (· ++ _) (stripped_of_visible h)

/-! ## Reading URLs -/

/-- What stands behind the colon does not change the scheme. -/
theorem afterSlashes_scheme {scheme : String} {text : List Char} {u : Url}
    (h : afterSlashes scheme text = .ok u) : u.scheme = scheme := by
  unfold afterSlashes at h
  simp only [bind, Except.bind] at h
  split at h
  · cases h
  · cases h
    rfl

theorem afterFile_scheme {text : List Char} {u : Url} (h : afterFile text = .ok u) :
    u.scheme = "file" := by
  unfold afterFile at h
  dsimp only at h
  split at h
  · split at h
    · split at h
      · cases h
        rfl
      · simp only [bind, Except.bind] at h
        split at h
        · cases h
        · cases h
          rfl
    · cases h
      rfl
  · cases h
    rfl

theorem afterPlain_scheme {scheme : String} {text : List Char} {u : Url}
    (h : afterPlain scheme text = .ok u) : u.scheme = scheme := by
  unfold afterPlain at h
  split at h
  · exact afterSlashes_scheme h
  · dsimp only at h
    split at h
    · cases h
      rfl
    · cases h
      rfl

theorem afterScheme_scheme {scheme : String} {text : List Char} {u : Url}
    (h : afterScheme scheme text = .ok u) : u.scheme = scheme := by
  unfold afterScheme at h
  split at h
  · next hkind =>
    have hfile : scheme = "file" := by
      unfold kindOf at hkind
      split at hkind
      · assumption
      · split at hkind <;> cases hkind
    rw [hfile]
    exact afterFile_scheme h
  · exact afterSlashes_scheme h
  · exact afterPlain_scheme h

/-- **The scheme of a URL that was read is a scheme in its written form.** -/
theorem isScheme_of_parse {text : String} {u : Url} (h : parse text = .ok u) :
    IsScheme u.scheme := by
  unfold parse at h
  split at h
  · next scheme rest hscheme =>
    rw [afterScheme_scheme h]
    exact isScheme_of_scheme? hscheme
  · cases h

/-- **A URL keeps its scheme when its text is read again.** -/
theorem scheme_of_parse_text {u v : Url} (h : IsScheme u.scheme) (hparse : parse u.text = .ok v) :
    v.scheme = u.scheme := by
  obtain ⟨first, name, hname, -⟩ := h.first
  -- the scheme and its colon are what preparing the text leaves alone
  have hvisible : ∀ c ∈ first :: (name ++ [':']), 0x20 < c.toNat := by
    intro c hc
    rw [← List.cons_append, ← hname] at hc
    rcases List.mem_append.mp hc with hc | hc
    · have hchar := isSchemeChar_iff.mp (h.chars c hc).1
      omega
    · rw [List.mem_singleton.mp hc]
      decide
  obtain ⟨rest, hrest⟩ : ∃ rest, u.chars = u.scheme.toList ++ ':' :: rest := ⟨_, rfl⟩
  have hfront : u.scheme.toList ++ ':' :: rest = first :: (name ++ [':']) ++ rest := by
    rw [hname, ← List.cons_append, List.append_assoc, List.singleton_append]
  obtain ⟨rest', hprepared⟩ := exists_prepared hvisible rest
  rw [parse, text, String.toList_ofList, hrest, hfront, hprepared, ← List.cons_append, ← hname,
    List.append_assoc, List.singleton_append, scheme?_of_isScheme h] at hparse
  exact afterScheme_scheme hparse

theorem scheme_withPath (u : Url) (path : String) : (u.withPath path).scheme = u.scheme := by
  unfold withPath
  split <;> rfl

end SecretClient.Url
