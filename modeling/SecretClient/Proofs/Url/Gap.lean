import SecretClient.Proofs.Url.Outside
import SecretClient.Proofs.Url.Slashes

/-!
# Gaps in a path

An empty piece of a path leaves an empty segment, unless the pieces behind it take the segment away again.
With another segment behind it this is a gap: two slashes of the text stand next to each other.

* `nil_mem_tail_resolve_iff` : which pieces leave a gap (`LeavesGap`)
* `doubled_read_iff` : two slashes of the text that is read stand next to each other exactly then
-/

namespace SecretClient.Segment

variable {done pieces rest above below : List (List Char)} {piece : List Char}

/-- Among the pieces is an empty one that is followed by others, which do not take its segment away. -/
def LeavesGap (pieces : List (List Char)) : Prop :=
  ∃ front back, pieces = front ++ [] :: back ∧ back ≠ [] ∧ outside? [] back = none

theorem leavesGap_cons_iff : LeavesGap (piece :: rest) ↔
    (piece = [] ∧ rest ≠ [] ∧ outside? [] rest = none) ∨ LeavesGap rest := by
  constructor
  · rintro ⟨front, back, heq, hback, hinside⟩
    cases front with
    | nil =>
      obtain ⟨rfl, rfl⟩ := List.cons.inj heq
      exact Or.inl ⟨rfl, hback, hinside⟩
    | cons first front =>
      obtain ⟨rfl, rfl⟩ := List.cons.inj heq
      exact Or.inr ⟨front, back, rfl, hback, hinside⟩
  · rintro (⟨rfl, hrest, hinside⟩ | ⟨front, back, rfl, hback, hinside⟩)
    · exact ⟨[], rest, rfl, hrest, hinside⟩
    · exact ⟨piece :: front, back, rfl, hback, hinside⟩

theorem not_leavesGap_nil : ¬ LeavesGap [] := by
  rintro ⟨front, back, heq, -⟩
  exact absurd heq.symm (by simp)

theorem leavesGap_cons_of_ne_nil (h : piece ≠ []) : LeavesGap (piece :: rest) ↔ LeavesGap rest := by
  simp [leavesGap_cons_iff, h]

instance decidableLeavesGap : (pieces : List (List Char)) → Decidable (LeavesGap pieces)
  | [] => isFalse not_leavesGap_nil
  | _ :: rest =>
    have := decidableLeavesGap rest
    decidable_of_iff _ leavesGap_cons_iff.symm

/-- Where only the last piece may be empty there is no gap. -/
theorem not_leavesGap_of_not_mem (h : [] ∉ pieces.dropLast) : ¬ LeavesGap pieces := by
  rintro ⟨front, back, rfl, hback, -⟩
  refine h ?_
  rw [List.dropLast_append_of_ne_nil (List.cons_ne_nil _ _), List.dropLast_cons_of_ne_nil hback]
  simp

/-! ## What becomes of an empty segment -/

/-- The segment that is taken away stood above the empty one, which is no drive. -/
theorem exists_of_pop_eq (h : pop done = above ++ [] :: below) :
    ∃ above', done = above' ++ [] :: below ∧ above' ≠ [] ∧ pop above' = above := by
  cases done with
  | nil => exact absurd h.symm (by simp [pop])
  | cons s done =>
    rw [pop] at h
    split at h
    · next hdrive =>
      cases above with
      | nil =>
        rw [(List.cons.inj h).1] at hdrive
        cases hdrive
      | cons first above =>
        obtain ⟨rfl, hdone⟩ := List.cons.inj h
        exact ⟨s :: above, by rw [hdone]; rfl, List.cons_ne_nil _ _, by rw [pop, if_pos hdrive]⟩
    · next hdrive =>
      exact ⟨s :: above, by rw [h]; rfl, List.cons_ne_nil _ _, by rw [pop, if_neg hdrive]⟩

/-- **An empty segment behind one more piece** is that of the piece, or it was there before and the piece
does not take it away. -/
theorem exists_of_step_eq (h : step done piece = above ++ [] :: below) :
    (piece = [] ∧ above = []) ∨ ∃ above', done = above' ++ [] :: below ∧
      ¬ (dots? piece = some 2 ∧ above' = []) ∧ step above' piece = above := by
  by_cases hone : dots? piece = some 1
  · rw [step_of_one hone] at h
    exact Or.inr ⟨above, h, by simp [hone], step_of_one hone above⟩
  · by_cases htwo : dots? piece = some 2
    · rw [step_of_two htwo] at h
      obtain ⟨above', hdone, hne, hpop⟩ := exists_of_pop_eq h
      exact Or.inr ⟨above', hdone, fun hout => hne hout.2, (step_of_two htwo above').trans hpop⟩
    · have hpush := step_of_notDots ⟨hone, htwo⟩
      rw [hpush] at h
      cases above with
      | nil => exact Or.inl ⟨encode_eq_nil_iff.mp (List.cons.inj h).1, rfl⟩
      | cons first above =>
        obtain ⟨rfl, hdone⟩ := List.cons.inj h
        exact Or.inr ⟨above, hdone, fun hout => htwo hout.1, hpush above⟩

/-- An empty segment in front of the one that the last piece leaves was there before. -/
theorem exists_of_mem_tail_close (h : [] ∈ (close piece (step done piece)).tail) :
    ∃ above below, done = above ++ [] :: below ∧ outside? above [piece] = none := by
  have hinside : ∀ {above : List (List Char)}, ¬ (dots? piece = some 2 ∧ above = []) →
      outside? above [piece] = none := fun hnot => by rw [outside?, if_neg hnot, outside?]
  by_cases hdots : dots? piece ≠ some 1 ∧ dots? piece ≠ some 2
  · rw [close_of_notDots hdots, step_of_notDots hdots, List.tail_cons] at h
    obtain ⟨above, below, rfl⟩ := List.append_of_mem h
    exact ⟨above, below, rfl, hinside fun hout => hdots.2 hout.1⟩
  · -- a dot segment leaves an empty segment of its own at the end
    rw [close_of_dots hdots, List.tail_cons] at h
    obtain ⟨above, below, hstep⟩ := List.append_of_mem h
    rcases exists_of_step_eq hstep with ⟨rfl, -⟩ | ⟨above', hdone, hnot, -⟩
    · exact absurd ⟨by decide, by decide⟩ hdots
    · exact ⟨above', below, hdone, hinside hnot⟩

/-! ## Which pieces leave a gap -/

/-- **What the gaps are due to**: the pieces, or an empty segment in front of them that they do not take
away. -/
theorem leavesGap_of_mem_tail (hne : pieces ≠ []) (h : [] ∈ (resolve .special done pieces).tail) :
    LeavesGap pieces ∨ ∃ above below, done = above ++ [] :: below ∧ outside? above pieces = none := by
  -- the induction is on the pieces: an empty segment in front of the rest is that of the first piece
  -- or stood in front of it
  induction pieces generalizing done with
  | nil => exact absurd rfl hne
  | cons piece rest ih =>
    by_cases hrest : rest = []
    · subst hrest
      rw [resolve_singleton] at h
      exact Or.inr (exists_of_mem_tail_close h)
    · rw [resolve_cons _ _ hrest] at h
      rcases ih hrest h with hgap | ⟨above, below, hstep, hinside⟩
      · exact Or.inl (leavesGap_cons_iff.mpr (Or.inr hgap))
      · rcases exists_of_step_eq hstep with ⟨rfl, rfl⟩ | ⟨above', hdone, hnot, rfl⟩
        · exact Or.inl (leavesGap_cons_iff.mpr (Or.inl ⟨rfl, hrest, hinside⟩))
        · exact Or.inr ⟨above', below, hdone, by rw [outside?, if_neg hnot, hinside]⟩

/-- The segments that pieces put in place behind an empty one do not close the gap. -/
theorem mem_tail_resolve (hback : rest ≠ []) (hinside : outside? [] rest = none) (done : List (List Char)) :
    [] ∈ (resolve .special ([] :: done) rest).tail := by
  have hbelow := resolve_of_outside?_eq_none hinside ([] :: done)
  rw [List.nil_append] at hbelow
  rw [hbelow, List.tail_append_of_ne_nil (resolve_ne_nil hback)]
  exact List.mem_append_right _ List.mem_cons_self

theorem mem_tail_of_leavesGap (h : LeavesGap pieces) (done : List (List Char)) :
    [] ∈ (resolve .special done pieces).tail := by
  induction pieces generalizing done with
  | nil => exact absurd h not_leavesGap_nil
  | cons piece rest ih =>
    rcases leavesGap_cons_iff.mp h with ⟨rfl, hrest, hinside⟩ | hgap
    · rw [resolve_cons _ _ hrest, step_of_notDots ⟨by decide, by decide⟩]
      exact mem_tail_resolve hrest hinside done
    · have hrest : rest ≠ [] := fun hnil => not_leavesGap_nil (hnil ▸ hgap)
      rw [resolve_cons _ _ hrest]
      exact ih hgap _

/-- **Which pieces leave a gap** behind segments that are not empty. -/
theorem nil_mem_tail_resolve_iff (hdone : [] ∉ done) :
    [] ∈ (resolve .special done pieces).tail ↔ LeavesGap pieces := by
  refine ⟨fun h => ?_, fun h => mem_tail_of_leavesGap h done⟩
  have hne : pieces ≠ [] := by
    rintro rfl
    exact hdone (List.mem_of_mem_tail h)
  rcases leavesGap_of_mem_tail hne h with hgap | ⟨above, below, rfl, -⟩
  · exact hgap
  · exact absurd (List.mem_append_right _ List.mem_cons_self) hdone

/-- **Two slashes of a text that is read stand next to each other** exactly if its pieces leave a gap. -/
theorem doubled_read_iff {segments : List (List Char)}
    (hread : segments = (resolve .special done pieces).reverse) (hslash : ∀ s ∈ segments, '/' ∉ s)
    (hdone : [] ∉ done) : Doubled (text segments) ↔ LeavesGap pieces := by
  rw [doubled_text_iff hslash, hread, List.dropLast_reverse, List.mem_reverse,
    nil_mem_tail_resolve_iff hdone]

end SecretClient.Segment
