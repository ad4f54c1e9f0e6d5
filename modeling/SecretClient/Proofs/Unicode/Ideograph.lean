import SecretClient.Proofs.Unicode.Normal
import SecretClient.Unicode.Direction
import SecretClient.Unicode.Mapping
import SecretClient.Unicode.Mark

/-!
# Ideographs

The block of the CJK Unified Ideographs, as an example of characters without anything special: no row of
any table reaches into it. Each of them is kept as it is, and texts of them are in normal form and run
from left to right.

* `mapping_of_isIdeograph`, `inert_of_isIdeograph`, `direction_of_isIdeograph`
-/

namespace SecretClient.Unicode

/-- A code point of the block. -/
def IsIdeograph (n : Nat) : Prop := 0x4E00 ≤ n ∧ n ≤ 0x9FFF

/-- A range of code points lies outside the block. -/
def Apart (first last : Nat) : Prop := last < 0x4E00 ∨ 0x9FFF < first

instance (first last : Nat) : Decidable (Apart first last) :=
  inferInstanceAs (Decidable (_ ∨ _))

/-! ## The tables -/

theorem disallowedRanges_apart : ∀ row ∈ disallowedRanges.rows.toList, Apart row.1 row.2 := by
  decide +kernel

theorem ignoredRanges_apart : ∀ row ∈ ignoredRanges.rows.toList, Apart row.1 row.2 := by
  decide +kernel

theorem shifts_apart : ∀ s ∈ shifts.toList, Apart s.first s.last := by decide +kernel

theorem expansions_apart : ∀ row ∈ expansions.toList, Apart row.1 row.1 := by decide +kernel

theorem markRanges_apart : ∀ row ∈ markRanges.rows.toList, Apart row.1 row.2 := by decide +kernel

theorem combiningRanges_apart : ∀ row ∈ combiningRanges.rows.toList, Apart row.1 row.2.1 := by
  decide +kernel

theorem directionRanges_apart : ∀ row ∈ directionRanges.rows.toList, Apart row.1 row.2.1 := by
  decide +kernel

/-- No ideograph of the block is taken apart, and none is the second part of another character. -/
theorem decompositions_apart : ∀ row ∈ decompositions.toList, Apart row.1 row.1 ∧
    Apart row.2.2 row.2.2 ∧ row.2.2 < 0x200000 := by decide +kernel

variable {n : Nat}

theorem IsIdeograph.not_apart (h : IsIdeograph n) {first last : Nat} (hfirst : first ≤ n)
    (hlast : n ≤ last) : ¬ Apart first last := by
  obtain ⟨hlow, hhigh⟩ := h
  unfold Apart
  omega

theorem not_has_of_isIdeograph (h : IsIdeograph n) {set : Ranges}
    (hset : ∀ row ∈ set.rows.toList, Apart row.1 row.2) : set.has n = false := by
  refine Bool.eq_false_iff.mpr fun hhas => ?_
  obtain ⟨row, hrow, hfirst, hlast⟩ := Ranges.exists_of_has hhas
  exact h.not_apart hfirst hlast (hset row hrow)

theorem get?_of_isIdeograph (h : IsIdeograph n) {map : RangeMap}
    (hmap : ∀ row ∈ map.rows.toList, Apart row.1 row.2.1) : map.get? n = none := by
  refine Option.eq_none_iff_forall_ne_some.mpr fun value hvalue => ?_
  obtain ⟨row, hrow, hfirst, hlast, -⟩ := RangeMap.exists_of_get? hvalue
  exact h.not_apart hfirst hlast (hmap row hrow)

/-! ## The characters -/

theorem wideMapping_of_isIdeograph (h : IsIdeograph n) : wideMapping n = .kept := by
  have hexpansion : wideMapping.expansion n = .kept := by
    unfold wideMapping.expansion
    split
    · next c chars hrow =>
      have hne : c ≠ n := by
        rintro rfl
        exact h.not_apart (Nat.le_refl _) (Nat.le_refl _)
          (expansions_apart _ (lastUpTo?_sound hrow).1)
      rw [if_neg hne]
    · rfl
  unfold wideMapping
  rw [not_has_of_isIdeograph h disallowedRanges_apart, not_has_of_isIdeograph h ignoredRanges_apart]
  simp only [Bool.false_eq_true, if_false]
  split
  · next s hrow =>
    obtain ⟨hs, hfirst⟩ := lastUpTo?_sound hrow
    have hlast : ¬ n ≤ s.last := fun hlast => h.not_apart hfirst hlast (shifts_apart s hs)
    rw [decide_eq_false hlast, Bool.false_and]
    exact hexpansion
  · exact hexpansion

theorem mapping_of_isIdeograph {c : Char} (h : IsIdeograph c.toNat) : mapping c = .kept := by
  have hlow := h.1
  unfold mapping
  dsimp only
  rw [if_neg (by omega), wideMapping_of_isIdeograph h]

theorem not_isMark_of_isIdeograph {c : Char} (h : IsIdeograph c.toNat) : isMark c = false := by
  rw [isMark, not_has_of_isIdeograph h markRanges_apart, Bool.and_false]

theorem direction_of_isIdeograph {c : Char} (h : IsIdeograph c.toNat) :
    direction c = .leftToRight := by
  have hlow := h.1
  unfold direction
  rw [if_neg (by omega), get?_of_isIdeograph h directionRanges_apart]

theorem hangulPair?_of_isIdeograph (h : IsIdeograph n) (first : Nat) :
    hangulPair? first n = none := by
  obtain ⟨hlow, hhigh⟩ := h
  have hvowel : ¬ n < 0x1176 := by omega
  have htail : ¬ n < 0x11C3 := by omega
  rw [hangulPair?, decide_eq_false hvowel, decide_eq_false htail, Bool.and_false, Bool.and_false]
  rfl

theorem composition?_of_isIdeograph (h : IsIdeograph n) (first : Nat) :
    composition? first n = none := by
  refine Option.eq_none_iff_forall_ne_some.mpr fun c hc => ?_
  obtain ⟨row, hrow, -, hkey⟩ := exists_of_composition? hc
  obtain ⟨-, hsecond, hsmall⟩ := decompositions_apart row hrow
  have heq : row.2.2 = n := by
    have hhigh := h.2
    omega
  rw [heq] at hsecond
  exact h.not_apart (Nat.le_refl _) (Nat.le_refl _) hsecond

theorem decomposition?_of_isIdeograph (h : IsIdeograph n) : decomposition? n = none := by
  refine Option.eq_none_iff_forall_ne_some.mpr fun parts hparts => ?_
  have hrow := decompositions_apart _ (exists_of_decomposition? hparts)
  exact h.not_apart (Nat.le_refl _) (Nat.le_refl _) hrow.1

/-- **An ideograph is no mark, is not taken apart, and composes with nothing.** -/
theorem inert_of_isIdeograph (h : IsIdeograph n) : Inert n := by
  have hlow := h.1
  have hhigh := h.2
  refine ⟨?_, fun steps => ?_, fun first => ?_⟩
  · rw [combiningClass, if_neg (by omega), get?_of_isIdeograph h combiningRanges_apart]
    rfl
  · cases steps with
    | zero => rfl
    | succ steps =>
      have hsyllable : ¬ 0xAC00 ≤ n := by omega
      have hparts : hangulParts? n = none := by
        rw [hangulParts?, decide_eq_false hsyllable, Bool.false_and]
        rfl
      rw [decomposed, if_neg (by omega), hparts, decomposition?_of_isIdeograph h]
  · rw [composed?, if_neg (by omega), hangulPair?_of_isIdeograph h, composition?_of_isIdeograph h]

end SecretClient.Unicode
