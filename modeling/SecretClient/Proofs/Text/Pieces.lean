import Mathlib.Data.List.TakeWhile

/-!
# Texts in pieces

Pieces between separators, and texts cut at the first or the last of a mark.

* `forall_mem_of_all`, `of_ascii` : what holds of characters because it is evaluated for each of them
* `of_mem_splitOnP` : a piece is made of characters of the text that are no separators
* `takeWhile_append_cons`, `takeWhile_reverse_append_cons` : what stands in front of the first mark and
  behind the last one
-/

namespace SecretClient.Pieces

variable {p : Char → Bool} {mark : Char} {front back : List Char}

/-- What is evaluated for one character of a text after the other holds of all of them. -/
theorem forall_mem_of_all {P : Char → Prop} [DecidablePred P] {text : List Char}
    (h : text.all (fun c => decide (P c)) = true) : ∀ c ∈ text, P c :=
  fun c hc => of_decide_eq_true (List.all_eq_true.mp h c hc)

/-- What is evaluated for one character of ASCII after the other holds of all of them. -/
theorem of_ascii {P : Char → Prop} (hall : ∀ n < 0x80, P (Char.ofNat n)) {c : Char}
    (h : c.toNat < 0x80) : P c := by
  rw [← Char.ofNat_toNat c]
  exact hall c.toNat h

/-- A piece is made of characters of the text that are no separators. -/
theorem of_mem_splitOnP {text piece : List Char} (h : piece ∈ text.splitOnP p) :
    ∀ c ∈ piece, c ∈ text ∧ p c = false := by
  induction text generalizing piece with
  | nil =>
    rw [List.splitOnP_nil, List.mem_singleton] at h
    rw [h]
    exact List.forall_mem_nil _
  | cons d text ih =>
    rw [List.splitOnP_cons_eq_if_modifyHead] at h
    split at h
    · rcases List.mem_cons.mp h with rfl | h
      · exact List.forall_mem_nil _
      · exact fun c hc => ⟨List.mem_cons_of_mem _ (ih h c hc).1, (ih h c hc).2⟩
    · next hd =>
      obtain ⟨first, rest, hpieces⟩ := List.exists_cons_of_ne_nil (List.splitOnP_ne_nil p text)
      rw [hpieces, List.modifyHead_cons] at h
      rw [hpieces] at ih
      rcases List.mem_cons.mp h with rfl | h
      · refine List.forall_mem_cons.mpr
          ⟨⟨List.mem_cons_self, Bool.eq_false_iff.mpr hd⟩, fun c hc => ?_⟩
        obtain ⟨hmem, hplain⟩ := ih List.mem_cons_self c hc
        exact ⟨List.mem_cons_of_mem _ hmem, hplain⟩
      · intro c hc
        obtain ⟨hmem, hplain⟩ := ih (List.mem_cons_of_mem _ h) c hc
        exact ⟨List.mem_cons_of_mem _ hmem, hplain⟩

/-- Which characters separate matters only for those of the text. -/
theorem splitOnP_congr {q : Char → Bool} {text : List Char} (h : ∀ c ∈ text, p c = q c) :
    text.splitOnP p = text.splitOnP q := by
  induction text with
  | nil => rw [List.splitOnP_nil, List.splitOnP_nil]
  | cons c text ih =>
    obtain ⟨hc, htext⟩ := List.forall_mem_cons.mp h
    rw [List.splitOnP_cons_eq_if_modifyHead, List.splitOnP_cons_eq_if_modifyHead, hc, ih htext]

/-- A character of pieces with separators between them is a separator or in a piece. -/
theorem mem_intercalate {pieces : List (List Char)} {c : Char} (h : c ∈ [mark].intercalate pieces) :
    c = mark ∨ ∃ piece ∈ pieces, c ∈ piece := by
  induction pieces with
  | nil => cases h
  | cons first rest ih =>
    cases rest with
    | nil =>
      rw [List.intercalate_singleton] at h
      exact Or.inr ⟨first, List.mem_cons_self, h⟩
    | cons second rest =>
      rw [List.intercalate_cons_cons, List.mem_append, List.mem_append, List.mem_singleton] at h
      rcases h with (h | h) | h
      · exact Or.inr ⟨first, List.mem_cons_self, h⟩
      · exact Or.inl h
      · rcases ih h with h | ⟨piece, hpiece, hc⟩
        · exact Or.inl h
        · exact Or.inr ⟨piece, List.mem_cons_of_mem _ hpiece, hc⟩

theorem takeWhile_append_cons (hfront : ∀ c ∈ front, p c = true) (hmark : p mark = false) :
    (front ++ mark :: back).takeWhile p = front := by
  rw [List.takeWhile_append_of_pos hfront, List.takeWhile_cons_of_neg (by simp [hmark]),
    List.append_nil]

theorem dropWhile_append_cons (hfront : ∀ c ∈ front, p c = true) (hmark : p mark = false) :
    (front ++ mark :: back).dropWhile p = mark :: back := by
  rw [List.dropWhile_append_of_pos hfront, List.dropWhile_cons_of_neg (by simp [hmark])]

theorem takeWhile_eq_self (h : ∀ c ∈ front, p c = true) : front.takeWhile p = front :=
  List.takeWhile_eq_self_iff.mpr h

/-- What stands behind the last mark. -/
theorem takeWhile_reverse_append_cons (hback : ∀ c ∈ back, p c = true) (hmark : p mark = false) :
    ((front ++ mark :: back).reverse.takeWhile p).reverse = back := by
  rw [List.reverse_append, List.reverse_cons, List.append_assoc, List.singleton_append,
    takeWhile_append_cons (fun c hc => hback c (List.mem_reverse.mp hc)) hmark,
    List.reverse_reverse]

end SecretClient.Pieces
