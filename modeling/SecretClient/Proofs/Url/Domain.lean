import SecretClient.Proofs.Text.Percent
import SecretClient.Proofs.Text.Pieces
import SecretClient.Proofs.Unicode.Capital
import SecretClient.Proofs.Url.Roundtrip
import SecretClient.Url.Domain

/-!
# Domain names read again

The ASCII form of a name is made of characters that are mapped to themselves, and its labels are read
as the labels they were made from. The one exception is an encoded label that is longer than what is
decoded: a label of up to a thousand characters is encoded however long the encoding gets.

* `isHostChar_of_mem_ascii?` : what the ASCII form of a name is written with
* `ascii?_of_ascii?` : the ASCII form of a name is its own ASCII form, or no name if it has a label that
  is too long
-/

namespace SecretClient.Domain

open Unicode

/-! ## Characters -/

/-- The characters of names in their ASCII form: no capital letters and nothing that is denied. -/
structure IsHostChar (c : Char) : Prop where
  ascii : c.toNat < 0x80
  small : ¬ IsCapital c.toNat
  allowed : isDenied c = false

theorem isHostChar_hyphen : IsHostChar '-' := ⟨by decide, by unfold IsCapital; decide, by decide⟩

theorem isHostChar_dot : IsHostChar '.' := ⟨by decide, by unfold IsCapital; decide, by decide⟩

theorem isHostChar_of_isDigit {c : Char} (h : Punycode.IsDigit c) : IsHostChar c := by
  have hall : ∀ n < 36, (Punycode.digit n).toNat < 0x80 ∧
      ¬ (0x41 ≤ (Punycode.digit n).toNat ∧ (Punycode.digit n).toNat ≤ 0x5A) ∧
      isDenied (Punycode.digit n) = false := by decide
  obtain ⟨n, hn, rfl⟩ := h
  obtain ⟨hascii, hsmall, hallowed⟩ := hall n hn
  exact ⟨hascii, hsmall, hallowed⟩

/-- A digit in either case is no character that is denied. -/
theorem not_denied_of_value? {c : Char} (hascii : c.toNat < 0x80)
    (h : (Punycode.value? c).isSome = true) : isDenied c = false := by
  exact Pieces.of_ascii (P := fun c => (Punycode.value? c).isSome = true → isDenied c = false)
    (by decide) hascii h

theorem mapping_of_isHostChar {c : Char} (h : IsHostChar c) : mapping c = .kept := by
  obtain ⟨hascii, hsmall, -⟩ := h
  unfold mapping
  dsimp only
  rw [if_pos hascii, if_neg]
  simpa [IsCapital] using hsmall

/-! ## Mapping -/

theorem mapped?_of_kept {name : List Char} (h : ∀ c ∈ name, mapping c = .kept) :
    mapped? name = some name := by
  unfold mapped?
  refine Option.map_eq_some_iff.mpr ⟨name.map ([·]), Utf8.mapM_eq_some_iff.mpr ?_, ?_⟩
  · rw [List.map_map]
    refine List.map_congr_left fun c hc => ?_
    rw [h c hc]
    rfl
  · rw [← List.flatMap_def, List.flatMap_singleton']

theorem holdsCapital_of_mapped? {name mapped : List Char} (h : mapped? name = some mapped) :
    ∀ c ∈ mapped, holdsCapital c.toNat = false := by
  unfold mapped? at h
  obtain ⟨pieces, hpieces, rfl⟩ := Option.map_eq_some_iff.mp h
  rw [Utf8.mapM_eq_some_iff] at hpieces
  intro c hc
  obtain ⟨piece, hpiece, hc⟩ := List.mem_flatten.mp hc
  have hmem : some piece ∈ pieces.map some := List.mem_map_of_mem hpiece
  rw [← hpieces] at hmem
  obtain ⟨d, -, hd⟩ := List.mem_map.mp hmem
  split at hd
  · next hkept =>
    cases hd
    rw [List.mem_singleton.mp hc]
    exact holdsCapital_of_mapping_kept hkept
  · next ns hns =>
    cases hd
    obtain ⟨n, hn, rfl⟩ := List.mem_map.mp hc
    exact holdsCapital_toNat_ofNat (holdsCapital_of_mapping_replaced hns n hn)
  · cases hd

/-- The mapped and normalised text of a name has no capital letters. -/
theorem not_isCapital_of_mapped? {name mapped : List Char} (h : mapped? name = some mapped) :
    ∀ c ∈ if mapped.all isAscii then mapped else normalForm mapped, ¬ IsCapital c.toNat := by
  have hmapped := holdsCapital_of_mapped? h
  split
  · intro c hc hcapital
    have hholds := holdsCapital_of_isCapital hcapital
    rw [hmapped c hc] at hholds
    cases hholds
  · exact not_isCapital_of_mem_normalForm hmapped

/-! ## Labels -/

/-- What is known of a label in its ASCII form: its characters, and that it is read again as itself if
it is not too long. -/
structure Label.IsWritten (label : Label) : Prop where
  chars : ∀ c ∈ label.ascii, IsHostChar c ∧ c ≠ '.'
  again : label? label.ascii
    = if isEncoded label.ascii = true ∧ 2004 < label.ascii.length then none else some label

theorem not_denied_of_isWide {chars : List Char} (h : isWide chars = true) :
    ∀ c ∈ chars, isDenied c = false := by
  simp only [isWide, isValid, Bool.and_eq_true, List.all_eq_true] at h
  intro c hc
  have hkept := h.2.1.1.1 c hc
  simp only [isKept, Bool.and_eq_true, Bool.not_eq_true'] at hkept
  exact hkept.2

theorem isAscii_iff {c : Char} : isAscii c = true ↔ c.toNat < 0x80 := decide_eq_true_iff

theorem isHostChar_of_mem_mark : ∀ c ∈ ['x', 'n', '-', '-'], IsHostChar c ∧ c ≠ '.' := by
  have hall : ∀ c ∈ ['x', 'n', '-', '-'], c.toNat < 0x80 ∧
      ¬ (0x41 ≤ c.toNat ∧ c.toNat ≤ 0x5A) ∧ isDenied c = false ∧ c ≠ '.' :=
    Pieces.forall_mem_of_all (by decide)
  intro c hc
  obtain ⟨hascii, hsmall, hallowed, hdot⟩ := hall c hc
  exact ⟨⟨hascii, hsmall, hallowed⟩, hdot⟩

/-- A label that is marked as an encoding and is one. -/
theorem isWritten_of_encoded {text chars : List Char} (hencoded : isEncoded text = true)
    (hdecode : Punycode.decode? (text.drop 4) = some chars) (hwide : isWide chars = true)
    (hchars : ∀ c ∈ text, c.toNat < 0x80 ∧ ¬ IsCapital c.toNat ∧ c ≠ '.') :
    (Label.mk text chars).IsWritten := by
  have hascii : text.all isAscii = true :=
    List.all_eq_true.mpr fun c hc => isAscii_iff.mpr (hchars c hc).1
  constructor
  · intro c hc
    obtain ⟨hascii, hsmall, hdot⟩ := hchars c hc
    refine ⟨⟨hascii, hsmall, ?_⟩, hdot⟩
    rw [← List.take_append_drop 4 text, beq_iff_eq.mp hencoded, List.mem_append] at hc
    rcases hc with hc | hc
    · exact (isHostChar_of_mem_mark c hc).1.allowed
    · rcases Punycode.mem_of_decode? hdecode c hc with hc | rfl | hc
      · exact not_denied_of_isWide hwide c hc
      · exact isHostChar_hyphen.allowed
      · exact not_denied_of_value? hascii hc
  · unfold label?
    dsimp only
    rw [if_pos hencoded, hdecode]
    simp [hencoded, hascii, hwide]

/-- **A label of a name without capital letters is written with the characters of hosts**, and is
read again as itself if it is not too long. -/
theorem isWritten_of_label? {piece : List Char} {label : Label} (h : label? piece = some label)
    (hsmall : ∀ c ∈ piece, ¬ IsCapital c.toNat) (hdot : '.' ∉ piece) : label.IsWritten := by
  have hpiece : ∀ c ∈ piece, c ≠ '.' := fun c hc heq => hdot (heq ▸ hc)
  -- the cases are the three ways to read a label
  have hagain := h
  unfold label? at h
  split at h
  · next hencoded =>
    split at h
    · cases h
    · obtain ⟨chars, hdecode, h⟩ := Option.bind_eq_some_iff.mp h
      obtain ⟨hvalid, h⟩ := Option.ite_none_right_eq_some.mp h
      cases h
      obtain ⟨hascii, hwide⟩ := Bool.and_eq_true_iff.mp hvalid
      refine isWritten_of_encoded hencoded hdecode hwide fun c hc => ⟨?_, hsmall c hc, hpiece c hc⟩
      exact isAscii_iff.mp (List.all_eq_true.mp hascii c hc)
  · next hencoded =>
    split at h
    · next hascii =>
      obtain ⟨hallowed, h⟩ := Option.ite_none_left_eq_some.mp h
      cases h
      simp only [List.any_eq_true, not_exists, not_and, Bool.not_eq_true] at hallowed
      refine ⟨fun c hc => ⟨⟨?_, hsmall c hc, hallowed c hc⟩, hpiece c hc⟩, ?_⟩
      · exact isAscii_iff.mp (List.all_eq_true.mp hascii c hc)
      · rw [if_neg fun hlong => hencoded hlong.1]
        exact hagain
    · split at h
      · next hvalid =>
        cases h
        obtain ⟨hwide, hlength⟩ := Bool.and_eq_true_iff.mp hvalid
        have hdecode := Punycode.decode?_encode (of_decide_eq_true hlength)
        refine isWritten_of_encoded rfl hdecode hwide fun c hc => ?_
        rcases List.mem_append.mp hc with hc | hc
        · obtain ⟨hhost, hdot⟩ := isHostChar_of_mem_mark c hc
          exact ⟨hhost.ascii, hhost.small, hdot⟩
        · rcases Punycode.mem_encode hc with ⟨hc, hascii⟩ | rfl | hc
          · exact ⟨hascii, hsmall c hc, hpiece c hc⟩
          · exact ⟨by decide, isHostChar_hyphen.small, by decide⟩
          · have hhost := isHostChar_of_isDigit hc
            exact ⟨hhost.ascii, hhost.small, Punycode.ne_dot_of_isDigit hc⟩
      · cases h

/-! ## Names -/

/-- No label of a name is marked as an encoding and longer than what is decoded. -/
def IsShort (name : List Char) : Prop :=
  ∀ label ∈ name.splitOn '.', isEncoded label = true → label.length ≤ 2004

instance (name : List Char) : Decidable (IsShort name) := by
  unfold IsShort
  exact inferInstance

/-- The text of labels between dots. -/
def joined (labels : List Label) : List Char := ['.'].intercalate (labels.map Label.ascii)

/-- The labels of a name: at least one, each as it is written, and their directions fit together. -/
structure AreWritten (labels : List Label) : Prop where
  ne_nil : labels ≠ []
  written : ∀ label ∈ labels, label.IsWritten
  fit : (labels.any (·.chars.any turns) && !labels.all (directionsFit ·.chars)) = false

theorem areWritten_of_labels? {name : List Char} {labels : List Label}
    (h : labels? name = some labels) : AreWritten labels := by
  unfold labels? at h
  obtain ⟨mapped, hmapped, h⟩ := Option.bind_eq_some_iff.mp h
  dsimp only at h
  have hsmall := not_isCapital_of_mapped? hmapped
  generalize (if mapped.all isAscii then mapped else normalForm mapped) = text at h hsmall
  obtain ⟨labels', hlabels, h⟩ := Option.bind_eq_some_iff.mp h
  obtain ⟨hfit, h⟩ := Option.ite_none_left_eq_some.mp h
  cases h
  rw [Utf8.mapM_eq_some_iff] at hlabels
  refine ⟨?_, fun label hlabel => ?_, Bool.eq_false_iff.mpr hfit⟩
  · rintro rfl
    exact List.splitOn_ne_nil '.' text (List.map_eq_nil_iff.mp hlabels)
  · have hmem : some label ∈ labels.map some := List.mem_map_of_mem hlabel
    rw [← hlabels] at hmem
    obtain ⟨piece, hpiece, hlabel⟩ := List.mem_map.mp hmem
    rw [List.splitOn_eq_splitOnP] at hpiece
    have hchars := Pieces.of_mem_splitOnP hpiece
    refine isWritten_of_label? hlabel (fun c hc => hsmall c (hchars c hc).1) fun hdot => ?_
    have hplain := (hchars '.' hdot).2
    simp at hplain

theorem splitOn_joined {labels : List Label} (h : AreWritten labels) :
    (joined labels).splitOn '.' = labels.map Label.ascii := by
  refine List.splitOn_intercalate '.' (fun text htext hdot => ?_) ?_
  · obtain ⟨label, hlabel, rfl⟩ := List.mem_map.mp htext
    exact ((h.written label hlabel).chars '.' hdot).2 rfl
  · exact fun hnil => h.ne_nil (List.map_eq_nil_iff.mp hnil)

theorem isHostChar_of_mem_joined {labels : List Label} (h : AreWritten labels) :
    ∀ c ∈ joined labels, IsHostChar c := by
  intro c hc
  rcases Pieces.mem_intercalate hc with rfl | ⟨text, htext, hc⟩
  · exact isHostChar_dot
  · obtain ⟨label, hlabel, rfl⟩ := List.mem_map.mp htext
    exact ((h.written label hlabel).chars c hc).1

theorem isShort_joined_iff {labels : List Label} (h : AreWritten labels) :
    IsShort (joined labels) ↔
      ∀ label ∈ labels, ¬ (isEncoded label.ascii = true ∧ 2004 < label.ascii.length) := by
  unfold IsShort
  rw [splitOn_joined h, List.forall_mem_map]
  simp only [not_and, Nat.not_lt]

/-- **Labels are read again as themselves, unless one of them is too long.** -/
theorem labels?_joined {labels : List Label} (h : AreWritten labels) :
    labels? (joined labels) = if IsShort (joined labels) then some labels else none := by
  have hchars := isHostChar_of_mem_joined h
  have hmapped : mapped? (joined labels) = some (joined labels) :=
    mapped?_of_kept fun c hc => mapping_of_isHostChar (hchars c hc)
  have hascii : (joined labels).all isAscii = true :=
    List.all_eq_true.mpr fun c hc => isAscii_iff.mpr (hchars c hc).ascii
  unfold labels?
  rw [hmapped, Option.bind_eq_bind, Option.bind_some]
  dsimp only
  rw [if_pos hascii, splitOn_joined h]
  split
  · next hshort =>
    have hread : (labels.map Label.ascii).mapM label? = some labels := by
      rw [Utf8.mapM_eq_some_iff, List.map_map]
      refine List.map_congr_left fun label hlabel => ?_
      rw [Function.comp_apply, (h.written label hlabel).again,
        if_neg ((isShort_joined_iff h).mp hshort label hlabel)]
    rw [hread, Option.bind_eq_bind, Option.bind_some, h.fit]
    rfl
  · next hlong =>
    have hnone : (labels.map Label.ascii).mapM label? = none := by
      rw [isShort_joined_iff h] at hlong
      simp only [not_forall, not_not] at hlong
      obtain ⟨label, hlabel, hlong⟩ := hlong
      refine Option.eq_none_iff_forall_ne_some.mpr fun labels' heq => ?_
      rw [Utf8.mapM_eq_some_iff, List.map_map] at heq
      have hmem : (label? ∘ Label.ascii) label ∈ labels'.map some :=
        heq ▸ List.mem_map_of_mem hlabel
      rw [Function.comp_apply, (h.written label hlabel).again, if_pos hlong] at hmem
      simp at hmem
    rw [hnone]
    rfl

/-- What a name in its ASCII form is made of. -/
theorem exists_labels_of_ascii? {name domain : List Char} (h : ascii? name = some domain) :
    ∃ labels, AreWritten labels ∧ domain = joined labels := by
  obtain ⟨labels, hlabels, rfl⟩ := Option.map_eq_some_iff.mp h
  exact ⟨labels, areWritten_of_labels? hlabels, rfl⟩

/-- **The ASCII form of a name is written with the characters of hosts.** -/
theorem isHostChar_of_mem_ascii? {name domain : List Char} (h : ascii? name = some domain) :
    ∀ c ∈ domain, IsHostChar c := by
  obtain ⟨labels, hlabels, rfl⟩ := exists_labels_of_ascii? h
  exact isHostChar_of_mem_joined hlabels

/-- **The ASCII form of a name is its own ASCII form, unless a label is too long.** -/
theorem ascii?_of_ascii? {name domain : List Char} (h : ascii? name = some domain) :
    ascii? domain = if IsShort domain then some domain else none := by
  obtain ⟨labels, hlabels, rfl⟩ := exists_labels_of_ascii? h
  unfold ascii?
  rw [labels?_joined hlabels]
  split <;> rfl

/-! ## Numbers -/

/-- What is known of a decimal digit as a character of a name. -/
theorem isHostChar_of_isDecimal {c : Char} (h : c.isDigit = true) :
    (IsHostChar c ∧ c ≠ '.') ∧ c ≠ 'x' ∧ turns c = false := by
  have hascii : c.toNat < 0x80 := by
    simp [Char.isDigit, UInt32.le_iff_toNat_le] at h
    omega
  obtain ⟨hsmall, hallowed, hdot, hx, hturns⟩ := Pieces.of_ascii (P := fun c => c.isDigit = true →
    ¬ (0x41 ≤ c.toNat ∧ c.toNat ≤ 0x5A) ∧ isDenied c = false ∧ c ≠ '.' ∧ c ≠ 'x' ∧
      turns c = false) (by decide +kernel) hascii h
  exact ⟨⟨⟨hascii, hsmall, hallowed⟩, hdot⟩, hx, hturns⟩

/-- **A name of numbers is its own ASCII form.** -/
theorem ascii?_of_digits {texts : List (List Char)} (hne : texts ≠ [])
    (h : ∀ text ∈ texts, ∀ c ∈ text, c.isDigit = true) :
    ascii? (['.'].intercalate texts) = some (['.'].intercalate texts) := by
  have hplain : ∀ text ∈ texts, ¬ isEncoded text = true := by
    intro text htext hencoded
    have hx : 'x' ∈ text.take 4 := beq_iff_eq.mp hencoded ▸ List.mem_cons_self
    exact absurd (h text htext 'x' (List.mem_of_mem_take hx)) (by decide)
  have hlabels : AreWritten (texts.map fun text => ⟨text, text⟩) := by
    refine ⟨fun hnil => hne (List.map_eq_nil_iff.mp hnil), fun label hlabel => ?_, ?_⟩
    · obtain ⟨text, htext, rfl⟩ := List.mem_map.mp hlabel
      have hchars := fun c hc => isHostChar_of_isDecimal (h text htext c hc)
      refine ⟨fun c hc => (hchars c hc).1, ?_⟩
      have hascii : text.all isAscii = true :=
        List.all_eq_true.mpr fun c hc => isAscii_iff.mpr (hchars c hc).1.1.ascii
      have hallowed : ¬ text.any isDenied = true := by
        rw [List.any_eq_true]
        rintro ⟨c, hc, hdenied⟩
        rw [(hchars c hc).1.1.allowed] at hdenied
        cases hdenied
      dsimp only
      rw [if_neg fun hlong => hplain text htext hlong.1, label?, if_neg (hplain text htext),
        if_pos hascii, if_neg hallowed]
    · rw [Bool.and_eq_false_iff]
      left
      rw [List.any_eq_false]
      intro label hlabel
      obtain ⟨text, htext, rfl⟩ := List.mem_map.mp hlabel
      rw [Bool.not_eq_true, List.any_eq_false]
      intro c hc
      rw [(isHostChar_of_isDecimal (h text htext c hc)).2.2]
      exact Bool.false_ne_true
  have hjoined : joined (texts.map fun text => ⟨text, text⟩) = ['.'].intercalate texts := by
    unfold joined
    rw [List.map_map]
    exact congrArg _ (List.map_id' texts)
  have hshort : IsShort (['.'].intercalate texts) := by
    rw [← hjoined, isShort_joined_iff hlabels]
    intro label hlabel hlong
    obtain ⟨text, htext, rfl⟩ := List.mem_map.mp hlabel
    exact hplain text htext hlong.1
  have hread := labels?_joined hlabels
  rw [hjoined, if_pos hshort] at hread
  unfold ascii?
  rw [hread]
  exact congrArg some hjoined

end SecretClient.Domain
