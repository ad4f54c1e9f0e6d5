import Mathlib.Data.List.TakeWhile
import Mathlib.Data.Nat.Bitwise
import SecretClient.Proofs.Unicode.Normal
import SecretClient.Unicode.Mapping

/-!
# Capital letters

The mapping of names leaves no capital letters, and none come back when the mapped text is normalised.

A capital letter of ASCII is in the decomposition of an accented one. `capitals` lists all of these; that
the list is whole is read off the table of decompositions (`decompositions_fit`), and that none of them
is kept or comes out of a replacement is read off the tables of the mapping (`shifts_fit`,
`expansions_fit`).

* `holdsCapital_of_mapping_kept`, `holdsCapital_of_mapping_replaced` : what the mapping leaves
* `not_isCapital_of_mem_normalForm` : what the normal form leaves
-/

namespace SecretClient.Unicode

/-! ## The characters with a capital letter -/

/-- A capital letter of ASCII. -/
def IsCapital (n : Nat) : Prop := 0x41 ≤ n ∧ n ≤ 0x5A

/-- The points at which gaps come to an end. -/
def pointsFrom (start : Nat) : List Nat → List Nat
  | [] => []
  | gap :: rest => (start + gap) :: pointsFrom (start + gap) rest

/-- The characters outside ASCII whose decomposition holds a capital letter. -/
def accentedCapitals : List Nat := pointsFrom 0 (numbers
  [0x181400101010101020101010101010101020101010101030101010123020202020202020402020202020202020204,
   0x1020202020402030202060202050202040202020202020202040202020202020202010202230f1e02020202020202,
   0x103020602020208040206020202020202020202020202020408020202020202b74e02020202020202020202020202,
   0x102020202020202020202020202020202020202020202020202020202020202020202020202020202020202020202,
   0x10202020202020202020202020202020c020202020202020202020202020202020202020202020202020202020202,
   0x10202020202020202020202020202843201])

/-- The capital letters and the characters whose decomposition holds one. -/
def capitals : List Nat := List.range' 0x41 26 ++ accentedCapitals

/-- A set of numbers as the bits of one number. -/
def bitsOf (ns : List Nat) : Nat := ns.foldr (fun n bits => 1 <<< n ||| bits) 0

/-- The set `capitals`. -/
def capitalBits : Nat := bitsOf capitals

/-- Whether a character is a capital letter or its decomposition holds one. -/
def holdsCapital (n : Nat) : Bool := capitalBits.testBit n

theorem testBit_bitsOf {ns : List Nat} {n : Nat} : (bitsOf ns).testBit n = true ↔ n ∈ ns := by
  induction ns with
  | nil => simp [bitsOf]
  | cons m ns ih =>
    show (1 <<< m ||| bitsOf ns).testBit n = true ↔ _
    rw [Nat.testBit_lor, Bool.or_eq_true, ih, Nat.one_shiftLeft, Nat.testBit_two_pow,
      decide_eq_true_eq, List.mem_cons, eq_comm]

theorem holdsCapital_iff {n : Nat} : holdsCapital n = true ↔ n ∈ capitals := testBit_bitsOf

theorem holdsCapital_of_isCapital {n : Nat} (h : IsCapital n) : holdsCapital n = true := by
  obtain ⟨hlow, hhigh⟩ := h
  rw [holdsCapital_iff, capitals, List.mem_append, List.mem_range'_1]
  exact Or.inl ⟨hlow, by omega⟩

theorem capitals_lt : ∀ n ∈ capitals, n < 0x2200 := by decide +kernel

theorem holdsCapital_of_le {n : Nat} (h : 0x2200 ≤ n) : holdsCapital n = false := by
  refine Bool.eq_false_iff.mpr fun hcapital => ?_
  exact absurd (capitals_lt n (holdsCapital_iff.mp hcapital)) (Nat.not_lt.mpr h)

/-- A number is read as the character with this value, or as the first of all if there is none. -/
theorem toNat_ofNat_cases (n : Nat) : (Char.ofNat n).toNat = n ∨ (Char.ofNat n).toNat = 0 := by
  by_cases hvalid : n.isValidChar
  · exact Or.inl (by rw [Char.ofNat, dif_pos hvalid]; rfl)
  · exact Or.inr (by rw [Char.ofNat, dif_neg hvalid]; rfl)

/-- A number that is no character is read as one without a capital letter. -/
theorem holdsCapital_toNat_ofNat {n : Nat} (h : holdsCapital n = false) :
    holdsCapital (Char.ofNat n).toNat = false := by
  rcases toNat_ofNat_cases n with heq | heq
  · rw [heq, h]
  · rw [heq]
    decide +kernel

/-! ## Decompositions -/

/-- What a row of the table of decompositions has to be: a character with a capital letter in its
decomposition is listed, and characters below U+00C0 have no decomposition. -/
theorem decompositions_fit : ∀ row ∈ decompositions.toList, 0xC0 ≤ row.1 ∧
    (holdsCapital row.2.1 = true ∨ holdsCapital row.2.2 = true → holdsCapital row.1 = true) := by
  decide +kernel

/-- **A character with a capital letter in its decomposition is one of `capitals`.** -/
theorem holdsCapital_of_mem_decomposed {m : Nat} (hm : IsCapital m) {steps n : Nat}
    (h : m ∈ decomposed steps n) : holdsCapital n = true := by
  -- a step of the decomposition is a row of the table, which passes the capital letter on
  induction steps generalizing n with
  | zero =>
    rw [decomposed, List.mem_singleton] at h
    exact h ▸ holdsCapital_of_isCapital hm
  | succ steps ih =>
    rw [decomposed] at h
    split at h
    · rw [List.mem_singleton] at h
      exact h ▸ holdsCapital_of_isCapital hm
    · split at h
      · next parts hparts =>
        have hlow := le_of_mem_hangulParts? hparts h
        have hhigh := hm.2
        omega
      · split at h
        · rw [List.mem_singleton] at h
          exact h ▸ holdsCapital_of_isCapital hm
        · next first second hrow =>
          have hfit := (decompositions_fit _ (exists_of_decomposition? hrow)).2
          rcases List.mem_append.mp h with h | h
          · exact hfit (Or.inl (ih h))
          · split at h
            · cases h
            · exact hfit (Or.inr (ih h))

/-! ## The normal form -/

/-- No character that is made by composition is an ASCII character. -/
theorem le_of_isComposed {n : Nat} (h : IsComposed n) : 0xC0 ≤ n := by
  obtain ⟨first, second, h⟩ := h
  unfold composed? at h
  split at h
  · cases h
  · split at h
    · next hpair => exact Nat.le_trans (by decide) (le_of_hangulPair? (Option.some.inj h ▸ hpair))
    · obtain ⟨row, hrow, rfl, -⟩ := exists_of_composition? h
      exact (decompositions_fit row hrow).1

theorem isCapital_of_ofNat {n : Nat} (h : IsCapital (Char.ofNat n).toNat) : IsCapital n := by
  rcases toNat_ofNat_cases n with heq | heq
  · rwa [heq] at h
  · rw [heq] at h
    exact absurd h (by unfold IsCapital; decide)

/-- **No capital letter is in the normal form of a text without characters with one.** -/
theorem not_isCapital_of_mem_normalForm {text : List Char}
    (h : ∀ c ∈ text, holdsCapital c.toNat = false) : ∀ c ∈ normalForm text, ¬ IsCapital c.toNat := by
  intro c hc hcapital
  obtain ⟨n, rfl, hn⟩ := mem_normalForm hc
  have hn' := isCapital_of_ofNat hcapital
  rcases hn with ⟨d, hd, hn⟩ | hn
  · have hholds := holdsCapital_of_mem_decomposed hn' hn
    rw [h d hd] at hholds
    cases hholds
  · have hlow := le_of_isComposed hn
    have hhigh := hn'.2
    omega

/-! ## Replacements -/

/-- Whether a shift replaces a character. -/
def Shift.covers (s : Shift) (n : Nat) : Bool :=
  s.first ≤ n && n ≤ s.last && (n - s.first) % s.step == 0

/-- What is left of ascending numbers when those that rows cover are taken away, row by row. -/
def uncovered (points : List Nat) : List Shift → List Nat
  | [] => points
  | s :: rest =>
    match points.dropWhile s.covers with
    | [] => []
    | p :: ps => uncovered (p :: ps) rest

theorem exists_covers {points : List Nat} {rows : List Shift} (h : uncovered points rows = []) :
    ∀ n ∈ points, ∃ s ∈ rows, s.covers n = true := by
  induction rows generalizing points with
  | nil =>
    rw [uncovered] at h
    rw [h]
    intro n hn
    cases hn
  | cons s rows ih =>
    intro n hn
    by_cases hs : n ∈ points.takeWhile s.covers
    · exact ⟨s, List.mem_cons_self, List.mem_takeWhile_imp hs⟩
    · rw [← List.takeWhile_append_dropWhile (p := s.covers) (l := points), List.mem_append] at hn
      have hrest := hn.resolve_left hs
      rw [uncovered] at h
      split at h
      · next hnil =>
        rw [hnil] at hrest
        cases hrest
      · next p ps hcons =>
        rw [hcons] at hrest
        obtain ⟨t, ht, hcovers⟩ := ih h n hrest
        exact ⟨t, List.mem_cons_of_mem _ ht, hcovers⟩

/-- What the rows of the table of shifts have to be: they stand in order, they cover all accented
capital letters but one, and they lead to no character with a capital letter. Behind the last of
these there is nothing to check. -/
theorem shifts_fit : inOrder Shift.first Shift.last 0 shifts.toList = true ∧
    uncovered (accentedCapitals.filter (· ≠ 0x130)) shifts.toList = [] ∧
    ∀ s ∈ shifts.toList, 0x2200 ≤ s.target ∨
      ∀ k < (s.last - s.first) / s.step + 1, holdsCapital (s.target + k * s.step) = false := by
  decide +kernel

/-- The replacements by several characters hold no capital letters. -/
theorem expansions_fit : ∀ row ∈ expansions.toList, ∀ n ∈ row.2, holdsCapital n = false := by
  decide +kernel

/-- The capital I with a dot is the one that becomes two characters. -/
theorem expansion_dottedI : wideMapping.expansion 0x130 ≠ .kept := by decide +kernel

theorem le_of_mem_accentedCapitals : ∀ n ∈ accentedCapitals, 0xC0 ≤ n := by decide +kernel

theorem holdsCapital_of_lt {n : Nat} (hlow : n < 0xC0) (h : ¬ IsCapital n) :
    holdsCapital n = false := by
  refine Bool.eq_false_iff.mpr fun hholds => ?_
  rw [holdsCapital_iff, capitals, List.mem_append, List.mem_range'_1] at hholds
  rcases hholds with ⟨hfirst, hlast⟩ | hmem
  · exact h ⟨hfirst, by omega⟩
  · exact absurd (le_of_mem_accentedCapitals n hmem) (Nat.not_le.mpr hlow)

theorem expansion_replaced {n : Nat} {ns : List Nat}
    (h : wideMapping.expansion n = .replaced ns) : ∀ m ∈ ns, holdsCapital m = false := by
  unfold wideMapping.expansion at h
  split at h
  · next c chars hrow =>
    split at h
    · cases h
      exact expansions_fit _ (lastUpTo?_sound hrow).1
    · cases h
  · cases h

/-- A shift leads to no character with a capital letter. -/
theorem holdsCapital_of_shift {s : Shift} (hs : s ∈ shifts.toList) {n : Nat} (hlast : n ≤ s.last)
    (hstep : (n - s.first) % s.step = 0) : holdsCapital (s.target + (n - s.first)) = false := by
  rcases shifts_fit.2.2 s hs with hfar | hnear
  · exact holdsCapital_of_le (by omega)
  · have hdvd := Nat.div_mul_cancel (Nat.dvd_of_mod_eq_zero hstep)
    rw [← hdvd]
    refine hnear _ (Nat.lt_succ_of_le (Nat.div_le_div_right ?_))
    omega

theorem wideMapping_replaced {n : Nat} {ns : List Nat} (h : wideMapping n = .replaced ns) :
    ∀ m ∈ ns, holdsCapital m = false := by
  unfold wideMapping at h
  split at h
  · cases h
  · split at h
    · cases h
      intro m hm
      cases hm
    · split at h
      · next s hrow =>
        split at h
        · next hcovers =>
          cases h
          simp only [Bool.and_eq_true, decide_eq_true_eq, beq_iff_eq] at hcovers
          intro m hm
          rw [List.mem_singleton.mp hm]
          exact holdsCapital_of_shift (lastUpTo?_sound hrow).1 hcovers.1 hcovers.2
        · exact expansion_replaced h
      · exact expansion_replaced h

/-- What is kept is no accented capital letter. -/
theorem wideMapping_ne_kept {n : Nat} (hn : n ∈ accentedCapitals) : wideMapping n ≠ .kept := by
  intro hkept
  by_cases hdotted : n = 0x130
  · subst hdotted
    unfold wideMapping at hkept
    split at hkept
    · cases hkept
    · split at hkept
      · cases hkept
      · split at hkept
        · split at hkept
          · cases hkept
          · exact expansion_dottedI hkept
        · exact expansion_dottedI hkept
  · obtain ⟨hsorted, hcovered, -⟩ := shifts_fit
    obtain ⟨s, hs, hcovers⟩ :=
      exists_covers hcovered n (List.mem_filter.mpr ⟨hn, decide_eq_true hdotted⟩)
    simp only [Shift.covers, Bool.and_eq_true, decide_eq_true_eq, beq_iff_eq] at hcovers
    obtain ⟨⟨hfirst, hlast⟩, hstep⟩ := hcovers
    have hrow := lastUpTo?_eq_some hsorted hs hfirst hlast
    unfold wideMapping at hkept
    rw [hrow] at hkept
    split at hkept
    · cases hkept
    · split at hkept
      · cases hkept
      · simp [hlast, hstep] at hkept

/-! ## The mapping -/

/-- **No character that is kept has a capital letter in its decomposition.** -/
theorem holdsCapital_of_mapping_kept {c : Char} (h : mapping c = .kept) :
    holdsCapital c.toNat = false := by
  unfold mapping at h
  dsimp only at h
  split at h
  · next hascii =>
    split at h
    · cases h
    · next hletter =>
      simp only [Bool.and_eq_true, decide_eq_true_eq] at hletter
      exact holdsCapital_of_lt (by omega) hletter
  · next hwide =>
    refine Bool.eq_false_iff.mpr fun hholds => ?_
    rw [holdsCapital_iff, capitals, List.mem_append, List.mem_range'_1] at hholds
    rcases hholds with hcapital | hmem
    · omega
    · exact wideMapping_ne_kept hmem h

/-- **No replacement has a capital letter in its decomposition.** -/
theorem holdsCapital_of_mapping_replaced {c : Char} {ns : List Nat}
    (h : mapping c = .replaced ns) : ∀ n ∈ ns, holdsCapital n = false := by
  unfold mapping at h
  dsimp only at h
  split at h
  · split at h
    · next hletter =>
      cases h
      simp only [Bool.and_eq_true, decide_eq_true_eq] at hletter
      intro n hn
      rw [List.mem_singleton.mp hn]
      exact holdsCapital_of_lt (by omega) fun hcapital => by have hhigh := hcapital.2; omega
    · cases h
  · exact wideMapping_replaced h

end SecretClient.Unicode
