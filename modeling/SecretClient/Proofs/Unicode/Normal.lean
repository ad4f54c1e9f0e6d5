import Mathlib.Data.List.Basic
import SecretClient.Proofs.Unicode.Table
import SecretClient.Unicode.Normal

/-!
# What the normal form is made of

Every character of a normal form comes out of the decomposition of one in the text, or is composed of
two (`mem_normalForm`). A text of characters that are neither taken apart nor composed is its own normal
form (`normalForm_of_inert`).
-/

namespace SecretClient.Unicode

/-! ## The rows behind a step -/

theorem exists_of_decomposition? {n first second : Nat}
    (h : decomposition? n = some (first, second)) : (n, first, second) ∈ decompositions.toList := by
  unfold decomposition? at h
  split at h
  · next c first' second' hrow =>
    obtain ⟨rfl, heq⟩ := Option.ite_none_right_eq_some.mp h
    cases heq
    exact (lastUpTo?_sound hrow).1
  · cases h

/-- A pair composes to a character that is taken apart into it, as far as their key tells. -/
theorem exists_of_composition? {first second n : Nat} (h : composition? first second = some n) :
    ∃ row ∈ decompositions.toList, row.1 = n ∧
      row.2.1 * 0x200000 + row.2.2 = first * 0x200000 + second := by
  unfold composition? compositions at h
  split at h
  · next key c hrow =>
    obtain ⟨hkey, heq⟩ := Option.ite_none_right_eq_some.mp h
    cases heq
    have hmem := (lastUpTo?_sound hrow).1
    rw [List.toList_toArray, List.mem_mergeSort, List.mem_filterMap] at hmem
    obtain ⟨row, hrow, heq⟩ := hmem
    refine ⟨row, hrow, ?_⟩
    obtain ⟨-, heq⟩ := Option.ite_none_left_eq_some.mp heq
    cases heq
    exact ⟨rfl, hkey⟩
  · cases h

theorem le_of_mem_hangulParts? {n m : Nat} {parts : List Nat} (h : hangulParts? n = some parts)
    (hm : m ∈ parts) : 0x1100 ≤ m := by
  unfold hangulParts? at h
  dsimp only at h
  split at h
  · rw [← Option.some.inj h] at hm
    split at hm
    · simp only [List.mem_cons, List.not_mem_nil, or_false] at hm
      omega
    · simp only [List.mem_append, List.mem_cons, List.not_mem_nil, or_false] at hm
      omega
  · cases h

theorem le_of_hangulPair? {first second n : Nat} (h : hangulPair? first second = some n) :
    0xAC00 ≤ n := by
  unfold hangulPair? at h
  split at h
  · rw [← Option.some.inj h, Nat.add_assoc]
    exact Nat.le_add_right ..
  · split at h
    · next hsyllable =>
      simp only [Bool.and_eq_true, decide_eq_true_eq] at hsyllable
      rw [← Option.some.inj h]
      exact Nat.le_trans hsyllable.1.1.1.1 (Nat.le_add_right ..)
    · cases h

/-! ## Members -/

theorem mem_placeMark {m n : Nat} {l : List Nat} : m ∈ placeMark n l ↔ m = n ∨ m ∈ l := by
  induction l with
  | nil => simp [placeMark]
  | cons k l ih =>
    unfold placeMark
    split
    · rw [List.mem_cons, ih, List.mem_cons]
      exact or_left_comm
    · exact List.mem_cons

theorem mem_foldr_placeMark {m : Nat} {l : List Nat} : m ∈ l.foldr placeMark [] ↔ m ∈ l := by
  induction l with
  | nil => simp
  | cons n l ih => rw [List.foldr_cons, mem_placeMark, ih, List.mem_cons]

/-- The code point is one that two compose to. -/
def IsComposed (n : Nat) : Prop := ∃ first second, composed? first second = some n

theorem mem_composeFrom {m starter : Nat} {held l : List Nat} (h : m ∈ composeFrom starter held l) :
    m = starter ∨ m ∈ held ∨ m ∈ l ∨ IsComposed m := by
  fun_induction composeFrom starter held l with
  | case1 starter held =>
    rcases List.mem_cons.mp h with h | h
    · exact Or.inl h
    · exact Or.inr (Or.inl (List.mem_reverse.mp h))
  | case2 starter held n rest free p hp ih =>
    obtain ⟨-, hcomposed⟩ := Option.ite_none_right_eq_some.mp hp
    rcases ih h with rfl | h | h | h
    · exact Or.inr (Or.inr (Or.inr ⟨_, _, hcomposed⟩))
    · exact Or.inr (Or.inl h)
    · exact Or.inr (Or.inr (Or.inl (List.mem_cons_of_mem _ h)))
    · exact Or.inr (Or.inr (Or.inr h))
  | case3 starter held n rest free hnone hzero ih =>
    rcases List.mem_cons.mp h with h | h
    · exact Or.inl h
    · rcases List.mem_append.mp h with h | h
      · exact Or.inr (Or.inl (List.mem_reverse.mp h))
      · rcases ih h with rfl | h | h | h
        · exact Or.inr (Or.inr (Or.inl List.mem_cons_self))
        · cases h
        · exact Or.inr (Or.inr (Or.inl (List.mem_cons_of_mem _ h)))
        · exact Or.inr (Or.inr (Or.inr h))
  | case4 starter held n rest free hnone hmark ih =>
    rcases ih h with h | h | h | h
    · exact Or.inl h
    · rcases List.mem_cons.mp h with rfl | h
      · exact Or.inr (Or.inr (Or.inl List.mem_cons_self))
      · exact Or.inr (Or.inl h)
    · exact Or.inr (Or.inr (Or.inl (List.mem_cons_of_mem _ h)))
    · exact Or.inr (Or.inr (Or.inr h))

theorem mem_compose {m : Nat} {l : List Nat} (h : m ∈ compose l) : m ∈ l ∨ IsComposed m := by
  induction l with
  | nil => cases h
  | cons n l ih =>
    unfold compose at h
    split at h
    · rcases mem_composeFrom h with rfl | h | h | h
      · exact Or.inl List.mem_cons_self
      · cases h
      · exact Or.inl (List.mem_cons_of_mem _ h)
      · exact Or.inr h
    · rcases List.mem_cons.mp h with rfl | h
      · exact Or.inl List.mem_cons_self
      · rcases ih h with h | h
        · exact Or.inl (List.mem_cons_of_mem _ h)
        · exact Or.inr h

/-- **A character of a normal form is a part of one in the text, or composed.** -/
theorem mem_normalForm {c : Char} {text : List Char} (h : c ∈ normalForm text) :
    ∃ n, c = Char.ofNat n ∧ ((∃ d ∈ text, n ∈ decomposed 8 d.toNat) ∨ IsComposed n) := by
  unfold normalForm at h
  obtain ⟨n, hn, rfl⟩ := List.mem_map.mp h
  refine ⟨n, rfl, ?_⟩
  rcases mem_compose hn with hn | hn
  · exact Or.inl (List.mem_flatMap.mp (mem_foldr_placeMark.mp hn))
  · exact Or.inr hn

/-! ## Texts in normal form -/

/-- A code point that is no mark, is not taken apart, and composes with nothing in front of it. -/
structure Inert (n : Nat) : Prop where
  starter : combiningClass n = 0
  whole : ∀ steps, decomposed steps n = [n]
  apart : ∀ first, composed? first n = none

theorem foldr_placeMark_of_inert {l : List Nat} (h : ∀ n ∈ l, Inert n) :
    l.foldr placeMark [] = l := by
  induction l with
  | nil => rfl
  | cons n l ih =>
    rw [List.foldr_cons, ih fun m hm => h m (List.mem_cons_of_mem _ hm)]
    cases l with
    | nil => rfl
    | cons m l =>
      have hstarter := (h n List.mem_cons_self).starter
      rw [placeMark, hstarter]
      simp

theorem composeFrom_of_inert {starter : Nat} {l : List Nat} (h : ∀ n ∈ l, Inert n) :
    composeFrom starter [] l = starter :: l := by
  induction l generalizing starter with
  | nil => rfl
  | cons n l ih =>
    have hn := h n List.mem_cons_self
    rw [composeFrom]
    simp only [if_true, hn.apart, hn.starter, List.reverse_nil, List.nil_append]
    rw [ih fun m hm => h m (List.mem_cons_of_mem _ hm)]

/-- **A text of inert characters is its own normal form.** -/
theorem normalForm_of_inert {text : List Char} (h : ∀ c ∈ text, Inert c.toNat) :
    normalForm text = text := by
  have hparts : text.flatMap (fun c => decomposed 8 c.toNat) = text.map Char.toNat := by
    rw [List.map_eq_flatMap]
    exact List.flatMap_congr fun c hc => (h c hc).whole 8
  have hinert : ∀ n ∈ text.map Char.toNat, Inert n := by
    intro n hn
    obtain ⟨c, hc, rfl⟩ := List.mem_map.mp hn
    exact h c hc
  unfold normalForm
  dsimp only
  rw [hparts, foldr_placeMark_of_inert hinert]
  have hcompose : compose (text.map Char.toNat) = text.map Char.toNat := by
    cases text with
    | nil => rfl
    | cons c text =>
      rw [List.map_cons, compose, if_pos (h c List.mem_cons_self).starter,
        composeFrom_of_inert fun n hn => hinert n (List.mem_cons_of_mem _ hn)]
  rw [hcompose, List.map_map]
  exact (List.map_congr_left fun c _ => Char.ofNat_toNat c).trans (List.map_id' text)

end SecretClient.Unicode
