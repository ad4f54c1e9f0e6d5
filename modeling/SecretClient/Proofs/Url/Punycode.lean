import Mathlib.Data.List.InsertIdx
import SecretClient.Proofs.Text.Pieces
import SecretClient.Url.Punycode

/-!
# What Punycode is written with

* `mem_encode` : an encoding is made of the ASCII characters of its label, hyphens and lower-case
  digits
* `mem_of_decode?` : a text that can be decoded is made of characters of what it stands for, hyphens and
  digits
-/

namespace SecretClient.Punycode

/-! ## The values of a label -/

theorem loop_eq_append {n : Nat} {values done : List Nat} :
    List.eraseRepsBy.loop (· == ·) n values done
      = done.reverse ++ List.eraseRepsBy.loop (· == ·) n values [] := by
  induction values generalizing n done with
  | nil => simp [List.eraseRepsBy.loop]
  | cons m values ih =>
    rw [List.eraseRepsBy.loop, List.eraseRepsBy.loop]
    split
    · rw [ih]
    · rw [ih, @ih m [n], List.reverse_cons, List.append_assoc]
      rfl

theorem eraseReps_cons_cons (m n : Nat) (values : List Nat) :
    (m :: n :: values).eraseReps
      = if m = n then (n :: values).eraseReps else m :: (n :: values).eraseReps := by
  show List.eraseRepsBy.loop (· == ·) m (n :: values) [] = _
  rw [List.eraseRepsBy.loop]
  split
  · next heq =>
    obtain rfl := beq_iff_eq.mp heq
    rw [if_pos rfl]
    rfl
  · next hne =>
    rw [if_neg (beq_eq_false_iff_ne.mp hne), loop_eq_append]
    rfl

/-- Values that are told once are the same values. -/
theorem mem_eraseReps {n : Nat} {values : List Nat} : n ∈ values.eraseReps ↔ n ∈ values := by
  induction values with
  | nil => rfl
  | cons m values ih =>
    cases values with
    | nil => rfl
    | cons k values =>
      rw [eraseReps_cons_cons]
      split
      · next heq =>
        rw [ih, heq, List.mem_cons (a := n) (b := k) (l := k :: values)]
        simp
      · rw [List.mem_cons, ih, List.mem_cons (l := k :: values)]

/-- **Sorted values that are told once stand in ascending order.** -/
theorem pairwise_eraseReps {values : List Nat} (h : values.Pairwise (· ≤ ·)) :
    values.eraseReps.Pairwise (· < ·) := by
  induction values with
  | nil => exact List.Pairwise.nil
  | cons m values ih =>
    obtain ⟨hm, hvalues⟩ := List.pairwise_cons.mp h
    cases values with
    | nil => exact List.pairwise_singleton _ _
    | cons k values =>
      rw [eraseReps_cons_cons]
      split
      · exact ih hvalues
      · next hne =>
        refine List.pairwise_cons.mpr ⟨fun n hn => ?_, ih hvalues⟩
        have hk := hm k List.mem_cons_self
        rcases List.mem_cons.mp (mem_eraseReps.mp hn) with rfl | hn
        · omega
        · have hle := List.rel_of_pairwise_cons hvalues hn
          omega

theorem eraseReps_of_ascending {values : List Nat} (h : values.Pairwise (· < ·)) :
    values.eraseReps = values := by
  induction values with
  | nil => rfl
  | cons m values ih =>
    cases values with
    | nil => rfl
    | cons k values =>
      obtain ⟨hm, hvalues⟩ := List.pairwise_cons.mp h
      rw [eraseReps_cons_cons, if_neg (Nat.ne_of_lt (hm k List.mem_cons_self)), ih hvalues]

/-! ## Encoding -/

/-- A digit as an encoding writes it. -/
def IsDigit (c : Char) : Prop := ∃ n < 36, c = digit n

theorem ne_dot_of_isDigit {c : Char} (h : IsDigit c) : c ≠ '.' := by
  have hall : ∀ n < 36, digit n ≠ '.' := by decide
  obtain ⟨n, hn, rfl⟩ := h
  exact hall n hn

theorem ne_hyphen_of_isDigit {c : Char} (h : IsDigit c) : c ≠ '-' := by
  have hall : ∀ n < 36, digit n ≠ '-' := by decide
  obtain ⟨n, hn, rfl⟩ := h
  exact hall n hn

theorem threshold_le (bias k : Nat) : threshold bias k ≤ 26 :=
  Nat.max_le.mpr ⟨by decide, Nat.min_le_left ..⟩

theorem one_le_threshold (bias k : Nat) : 1 ≤ threshold bias k := Nat.le_max_left ..

theorem digits_ne_nil (bias k delta : Nat) : digits bias k delta ≠ [] := by
  rw [digits]
  split <;> exact List.cons_ne_nil _ _

theorem isDigit_of_mem_digits {bias k delta : Nat} : ∀ c ∈ digits bias k delta, IsDigit c := by
  fun_induction digits bias k delta with
  | case1 k delta t hlt =>
    have hle : t ≤ 26 := threshold_le bias k
    intro c hc
    exact ⟨delta, by omega, List.mem_singleton.mp hc⟩
  | case2 k delta t hge ih =>
    have hle : t ≤ 26 := threshold_le bias k
    have hmod := Nat.mod_lt (delta - t) (show 0 < 36 - t by omega)
    intro c hc
    rcases List.mem_cons.mp hc with rfl | hc
    · exact ⟨_, by omega, rfl⟩
    · exact ih c hc

theorem Writer.pass_out {basic n : Nat} {w : Writer} (h : ∀ c ∈ w.out, IsDigit c) (d : Char) :
    ∀ c ∈ (w.pass basic n d).out, IsDigit c := by
  unfold Writer.pass
  split
  · exact h
  · split
    · intro c hc
      rcases List.mem_append.mp hc with hc | hc
      · exact isDigit_of_mem_digits c (List.mem_reverse.mp hc)
      · exact h c hc
    · exact h

theorem foldl_pass_out {basic n : Nat} {text : List Char} {w : Writer}
    (h : ∀ c ∈ w.out, IsDigit c) : ∀ c ∈ (text.foldl (Writer.pass basic n) w).out, IsDigit c := by
  induction text generalizing w with
  | nil => exact h
  | cons d text ih => exact ih (Writer.pass_out h d)

/-- Round after round only digits are written. -/
theorem rounds_out {text : List Char} {basic : Nat} {values : List Nat} {at_ : Nat} {w : Writer}
    (h : ∀ c ∈ w.out, IsDigit c) : ∀ c ∈ (rounds text basic values at_ w).out, IsDigit c := by
  induction values generalizing at_ w with
  | nil => exact h
  | cons n values ih =>
    rw [rounds]
    exact ih (foldl_pass_out h)

/-- **An encoding is made of the ASCII characters of the label, hyphens and digits.** -/
theorem mem_encode {label : List Char} {c : Char} (h : c ∈ encode label) :
    (c ∈ label ∧ c.toNat < 0x80) ∨ c = '-' ∨ IsDigit c := by
  unfold encode at h
  dsimp only at h
  rw [List.mem_append, List.mem_append, List.mem_reverse] at h
  rcases h with (h | h) | h
  · obtain ⟨hmem, hascii⟩ := List.mem_filter.mp h
    exact Or.inl ⟨hmem, of_decide_eq_true hascii⟩
  · split at h
    · cases h
    · exact Or.inr (Or.inl (List.mem_singleton.mp h))
  · exact Or.inr (Or.inr (rounds_out (List.forall_mem_nil _) c h))

/-! ## Decoding -/

/-- What is read of a difference is digits. -/
theorem value?_of_readDelta {bias k weight i j : Nat} {text : List Char}
    {rest : { rest : List Char // rest.length < text.length }}
    (h : readDelta bias k weight i text = some (j, rest)) :
    ∀ c ∈ text, c ∈ rest.val ∨ (value? c).isSome = true := by
  induction text generalizing k weight i with
  | nil => cases h
  | cons d text ih =>
    unfold readDelta at h
    obtain ⟨v, hv, h⟩ := Option.bind_eq_some_iff.mp h
    have hd : (value? d).isSome = true := by rw [hv]; rfl
    dsimp only at h
    split at h
    · cases h
    · split at h
      · cases h
        intro c hc
        rcases List.mem_cons.mp hc with rfl | hc
        · exact Or.inr hd
        · exact Or.inl hc
      · split at h
        · cases h
        · obtain ⟨⟨j', r, hr⟩, hrest, h⟩ := Option.bind_eq_some_iff.mp h
          cases h
          intro c hc
          rcases List.mem_cons.mp hc with rfl | hc
          · exact Or.inr hd
          · exact ih hrest c hc

/-- What is in place stays, and what is read is digits. -/
theorem mem_of_place {out text chars : List Char} {n i bias : Nat}
    (h : place out n i bias text = some chars) :
    (∀ c ∈ out, c ∈ chars) ∧ ∀ c ∈ text, (value? c).isSome = true := by
  fun_induction place out n i bias text with
  | case1 out n i bias text hempty =>
    cases h
    rw [List.isEmpty_iff.mp hempty]
    exact ⟨fun c hc => hc, List.forall_mem_nil _⟩
  | case2 => cases h
  | case3 out n i bias text hne j rest hrest hread count n' hvalid ih =>
    obtain ⟨hout, htext⟩ := ih h
    refine ⟨fun c hc => hout c ?_, fun c hc => ?_⟩
    · have hindex : j % count ≤ out.length := Nat.le_of_lt_succ (Nat.mod_lt j (Nat.succ_pos _))
      exact (List.mem_insertIdx hindex).mpr (Or.inr hc)
    · rcases value?_of_readDelta hread c hc with hc | hc
      · exact htext c hc
      · exact hc
  | case4 => cases h

theorem splitLast_eq_self {text : List Char} (h : ∀ c ∈ text, c ≠ '-') :
    splitLast text = ([], text) := by
  have htail : (text.reverse.takeWhile (· ≠ '-')).reverse = text := by
    rw [Pieces.takeWhile_eq_self fun c hc => decide_eq_true (h c (List.mem_reverse.mp hc)),
      List.reverse_reverse]
  unfold splitLast
  dsimp only
  rw [htail, Nat.sub_self, Nat.zero_sub]
  rfl

/-- A text with a last hyphen comes apart there, unless it is the first character. -/
theorem splitLast_append {front back : List Char} (h : ∀ c ∈ back, c ≠ '-') :
    splitLast (front ++ '-' :: back)
      = if front.isEmpty then ([], front ++ '-' :: back) else (front, back) := by
  have htail : ((front ++ '-' :: back).reverse.takeWhile (· ≠ '-')).reverse = back :=
    Pieces.takeWhile_reverse_append_cons (fun c hc => decide_eq_true (h c hc)) (by decide)
  have htake : (front ++ '-' :: back).take ((front ++ '-' :: back).length - back.length - 1)
      = front := by
    refine List.take_left' ?_
    rw [List.length_append, List.length_cons]
    omega
  unfold splitLast
  dsimp only
  rw [htail, htake]

theorem exists_last_hyphen {text : List Char} (h : '-' ∈ text) :
    ∃ front back, text = front ++ '-' :: back ∧ ∀ c ∈ back, c ≠ '-' := by
  obtain ⟨back, front, htext, hback⟩ := List.eq_append_cons_of_mem (List.mem_reverse.mpr h)
  refine ⟨front.reverse, back.reverse, ?_, fun c hc heq => hback ?_⟩
  · rw [← List.reverse_reverse text, htext, List.reverse_append, List.reverse_cons,
      List.append_assoc, List.singleton_append]
  · exact heq ▸ List.mem_reverse.mp hc

theorem mem_splitLast {text : List Char} :
    ∀ c ∈ text, c ∈ (splitLast text).1 ∨ c ∈ (splitLast text).2 ∨ c = '-' := by
  intro c hc
  by_cases hhyphen : '-' ∈ text
  · obtain ⟨front, back, rfl, hback⟩ := exists_last_hyphen hhyphen
    rw [splitLast_append hback]
    split
    · exact Or.inr (Or.inl hc)
    · rcases List.mem_append.mp hc with hc | hc
      · exact Or.inl hc
      · exact Or.inr ((List.mem_cons.mp hc).symm)
  · rw [splitLast_eq_self fun d hd heq => hhyphen (heq ▸ hd)]
    exact Or.inr (Or.inl hc)

/-- **A text that can be decoded is made of characters of what it stands for, hyphens and digits.** -/
theorem mem_of_decode? {text chars : List Char} (h : decode? text = some chars) :
    ∀ c ∈ text, c ∈ chars ∨ c = '-' ∨ (value? c).isSome = true := by
  obtain ⟨hout, htext⟩ := mem_of_place h
  intro c hc
  rcases mem_splitLast c hc with hc | hc | hc
  · exact Or.inl (hout c hc)
  · exact Or.inr (Or.inr (htext c hc))
  · exact Or.inr (Or.inl hc)

end SecretClient.Punycode
