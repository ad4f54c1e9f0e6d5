import SecretClient.Text.Digit

/-!
# The digits of a number

* `exists_digits` : the text of a number is made of digits that write the number, without a zero in
  front of others
* `read?_text` : the text of a number in a base is read as the number
-/

namespace SecretClient.Digit

/-- Digits of the base ten, of which the first is no zero unless it is alone. -/
structure Canonical (d : Nat) (ds : List Nat) : Prop where
  lt_ten : ∀ e ∈ d :: ds, e < 10
  alone : d = 0 → ds = []

theorem number_append (ds : List Nat) (d : Nat) : number 10 (ds ++ [d]) = number 10 ds * 10 + d := by
  simp only [number, List.foldl_append, List.foldl_cons, List.foldl_nil]

/-- **The text of a number is made of its digits.** -/
theorem exists_digits (n : Nat) :
    ∃ d ds, text 10 n = (d :: ds).map Nat.digitChar ∧ number 10 (d :: ds) = n ∧ Canonical d ds := by
  unfold text
  induction n using Nat.strongRecOn with
  | ind n ih =>
    by_cases hn : n < 10
    · refine ⟨n, [], Nat.toDigits_of_lt_base hn, ?_, ⟨?_, fun _ => rfl⟩⟩
      · simp [number]
      · intro e he
        rw [List.mem_singleton.mp he]
        exact hn
    · obtain ⟨d, ds, htext, hnumber, hlt, halone⟩ := ih (n / 10) (by omega)
      refine ⟨d, ds ++ [n % 10], ?_, ?_, ⟨?_, ?_⟩⟩
      · rw [Nat.toDigits_of_base_le (by omega) (by omega), htext, ← List.cons_append,
          List.map_append]
        rfl
      · rw [← List.cons_append, number_append, hnumber]
        omega
      · intro e he
        rw [← List.cons_append] at he
        rcases List.mem_append.mp he with he | he
        · exact hlt e he
        · rw [List.mem_singleton.mp he]
          omega
      · -- a zero in front would be all of `n / 10`, which is at least one
        intro hd
        rw [hd, halone hd] at hnumber
        have hzero : n / 10 = 0 := hnumber.symm
        omega

/-! ## Any base -/

/-- The characters of the text of a number are digits of its base. -/
theorem exists_of_mem_text {base n : Nat} (hbase : 1 < base) {c : Char} (hc : c ∈ text base n) :
    ∃ d < base, c = Nat.digitChar d := by
  unfold text at hc
  induction n using Nat.strongRecOn with
  | ind n ih =>
    by_cases hn : n < base
    · rw [Nat.toDigits_of_lt_base hn, List.mem_singleton] at hc
      exact ⟨n, hn, hc⟩
    · rw [Nat.toDigits_of_base_le hbase (Nat.le_of_not_lt hn), List.mem_append,
        List.mem_singleton] at hc
      rcases hc with hc | hc
      · exact ih (n / base) (Nat.div_lt_self (by omega) hbase) hc
      · exact ⟨n % base, Nat.mod_lt n (by omega), hc⟩

theorem text_ne_nil (base n : Nat) : text base n ≠ [] := Nat.toDigits_ne_nil

theorem value?_digitChar {base d : Nat} (hbase : base ≤ 16) (hd : d < base) :
    value? base (Nat.digitChar d) = some d := by
  have hall : ∀ d < 16, hex? (Nat.digitChar d) = some d := by decide
  rw [value?, hall d (by omega), Option.filter_some, if_pos (decide_eq_true hd)]

/-- **The text of a number in a base is read as the number.** -/
theorem read?_text {base : Nat} (hlow : 1 < base) (hhigh : base ≤ 16) (n : Nat) :
    read? base (text base n) = some n := by
  unfold read? text
  induction n using Nat.strongRecOn with
  | ind n ih =>
    by_cases hn : n < base
    · rw [Nat.toDigits_of_lt_base hn]
      simp [value?_digitChar hhigh hn, number]
    · have hfront := ih (n / base) (Nat.div_lt_self (by omega) hlow)
      obtain ⟨ds, hds, hnumber⟩ := Option.map_eq_some_iff.mp hfront
      rw [Nat.toDigits_of_base_le hlow (Nat.le_of_not_lt hn), List.mapM_append, hds]
      have hlast := value?_digitChar hhigh (Nat.mod_lt n (show 0 < base by omega))
      simp only [number] at hnumber
      simp [hlast, number, hnumber, Nat.div_add_mod']

end SecretClient.Digit
