import Mathlib.Tactic.Ring
import SecretClient.Proofs.Url.Punycode

/-!
# Labels in ascending order

The encoding of a label whose characters stand in ascending order, none of them in ASCII: character
after character is written as the difference to the one before it, times its place (`climb`).

* `encode_of_ascends` : the encoding of such a label is the digits of these differences
* `length_climb` : if its characters are not too close to each other, it takes three digits for almost
  each of them
-/

namespace SecretClient.Punycode

/-! ## One difference -/

/-- A difference of 936 or more takes three digits, whatever the thresholds are. -/
theorem three_le_length_digits {bias k delta : Nat} (h : 936 ≤ delta) :
    3 ≤ (digits bias k delta).length := by
  have hlow := one_le_threshold bias k
  have hle := threshold_le bias k
  have hle' := threshold_le bias (k + 36)
  have hsecond : 26 ≤ (delta - threshold bias k) / (36 - threshold bias k) := by
    rw [Nat.le_div_iff_mul_le (by omega)]
    omega
  rw [digits, if_neg (by omega), List.length_cons, digits, if_neg (by omega), List.length_cons]
  have hthird := List.length_pos_iff.mpr (digits_ne_nil bias (k + 36 + 36)
    (((delta - threshold bias k) / (36 - threshold bias k) - threshold bias (k + 36)) /
      (36 - threshold bias (k + 36))))
  omega

/-! ## The differences of a label -/

/-- The digits of ascending values behind the value `prev`, with `count` characters in place. -/
def climb (prev bias count : Nat) : List Nat → List Char
  | [] => []
  | n :: rest =>
    digits bias 36 ((n - prev) * (count + 1)) ++
      climb n (adapt ((n - prev) * (count + 1)) (count + 1) (count == 0)) (count + 1) rest

/-! ## Encoding -/

theorem foldl_pass_below {n : Nat} {text : List Char} (h : ∀ c ∈ text, c.toNat < n) (w : Writer) :
    text.foldl (Writer.pass 0 n) w = { w with delta := w.delta + text.length } := by
  induction text generalizing w with
  | nil => rfl
  | cons c text ih =>
    rw [List.foldl_cons, ih fun d hd => h d (List.mem_cons_of_mem _ hd), Writer.pass,
      if_pos (h c List.mem_cons_self), List.length_cons]
    dsimp only
    rw [Nat.add_assoc, Nat.add_comm 1]

theorem foldl_pass_above {n : Nat} {text : List Char} (h : ∀ c ∈ text, n < c.toNat) (w : Writer) :
    text.foldl (Writer.pass 0 n) w = w := by
  induction text with
  | nil => rfl
  | cons c text ih =>
    have hc := h c List.mem_cons_self
    rw [List.foldl_cons, Writer.pass, if_neg (by omega), if_neg (by omega),
      ih fun d hd => h d (List.mem_cons_of_mem _ hd)]

/-- The rounds of an ascending label write its differences: in each round all characters in front of
the one that is written are passed, and none behind it is looked at. -/
theorem rounds_climb {done rest : List Char} {prev at_ : Nat} {w : Writer}
    (hdone : ∀ c ∈ done, c.toNat < at_) (hrest : ∀ c ∈ rest, at_ ≤ c.toNat)
    (hascends : rest.Pairwise (·.toNat < ·.toNat)) (hcount : w.count = done.length)
    (hdelta : ∀ n, at_ ≤ n →
      w.delta + (n - at_) * (w.count + 1) + w.count = (n - prev) * (w.count + 1)) :
    (rounds (done ++ rest) 0 (rest.map Char.toNat) at_ w).out
      = (climb prev w.bias w.count (rest.map Char.toNat)).reverse ++ w.out := by
  induction rest generalizing done prev at_ w with
  | nil => rfl
  | cons c rest ih =>
    obtain ⟨hc, hascends⟩ := List.pairwise_cons.mp hascends
    have hat := hrest c List.mem_cons_self
    have hfirst := hdelta c.toNat hat
    have hbelow : ∀ d ∈ done, d.toNat < c.toNat := fun d hd => Nat.lt_of_lt_of_le (hdone d hd) hat
    rw [List.map_cons, rounds, List.foldl_append, foldl_pass_below hbelow, List.foldl_cons,
      Writer.pass, if_neg (Nat.lt_irrefl _), if_pos rfl, foldl_pass_above hc]
    dsimp only
    rw [← hcount, hfirst, show done ++ c :: rest = done ++ [c] ++ rest by simp, ih]
    · rw [climb, List.reverse_append, List.append_assoc]
    · intro d hd
      rcases List.mem_append.mp hd with hd | hd
      · have hlt := hbelow d hd
        omega
      · rw [List.mem_singleton.mp hd]
        exact Nat.lt_succ_self _
    · exact fun d hd => hc d hd
    · exact hascends
    · simp [hcount]
    · intro n hn
      obtain ⟨j, rfl⟩ : ∃ j, n = c.toNat + 1 + j := ⟨n - (c.toNat + 1), by omega⟩
      rw [show c.toNat + 1 + j - (c.toNat + 1) = j by omega,
        show c.toNat + 1 + j - c.toNat = j + 1 by omega]
      dsimp only
      ring

/-- What is known of a label in ascending order, none of whose characters are in ASCII. -/
structure Ascends (label : List Char) : Prop where
  wide : ∀ c ∈ label, 0x80 ≤ c.toNat
  pairwise : label.Pairwise (·.toNat < ·.toNat)

theorem encode_of_ascends {label : List Char} (h : Ascends label) :
    encode label = climb 0x80 72 0 (label.map Char.toNat) := by
  have hbasic : label.filter (·.toNat < 0x80) = [] := by
    rw [List.filter_eq_nil_iff]
    intro c hc
    have hwide := h.wide c hc
    simp only [decide_eq_true_eq]
    omega
  have hwide : label.filter (0x80 ≤ ·.toNat) = label :=
    List.filter_eq_self.mpr fun c hc => decide_eq_true (h.wide c hc)
  have hvalues : (label.map Char.toNat).Pairwise (· < ·) := List.pairwise_map.mpr h.pairwise
  have hsorted : (label.map Char.toNat).mergeSort = label.map Char.toNat :=
    List.mergeSort_of_pairwise (hvalues.imp fun hlt => decide_eq_true (Nat.le_of_lt hlt))
  unfold encode
  dsimp only
  rw [hbasic, hwide, hsorted, eraseReps_of_ascending hvalues]
  have hrounds := @rounds_climb [] label 0x80 0x80 { out := [], delta := 0, bias := 72, count := 0 }
    (List.forall_mem_nil _) h.wide h.pairwise rfl (fun n _ => by simp)
  rw [List.nil_append] at hrounds
  simp only [List.length_nil, hrounds]
  simp

/-! ## How long an encoding is -/

/-- **Characters that are twenty apart take three digits each**, but for the first ones. -/
theorem length_climb {prev bias count : Nat} {values : List Nat}
    (h : (prev :: values).IsChain fun m n => m + 20 ≤ n) :
    3 * values.length ≤ (climb prev bias count values).length + 3 * (46 - count) := by
  induction values generalizing prev bias count with
  | nil => exact Nat.zero_le _
  | cons n values ih =>
    obtain ⟨hgap, hrest⟩ := List.isChain_cons_cons.mp h
    have hrest := @ih n (adapt ((n - prev) * (count + 1)) (count + 1) (count == 0)) (count + 1) hrest
    rw [climb, List.length_append, List.length_cons]
    by_cases hcount : count < 46
    · omega
    · have hdelta : 936 ≤ (n - prev) * (count + 1) :=
        calc 936 ≤ 20 * 47 := by decide
          _ ≤ (n - prev) * (count + 1) := Nat.mul_le_mul (by omega) (by omega)
      have hdigits : 3 ≤ (digits bias 36 ((n - prev) * (count + 1))).length :=
        three_le_length_digits hdelta
      omega

end SecretClient.Punycode
