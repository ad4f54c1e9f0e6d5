import Mathlib.Data.List.DropRight
import SecretClient.Decimal.Shortest
import SecretClient.Proofs.Text.Digit

/-!
# The digits of the shortest decimal

* `shortest_coefficient` : the shortest decimal of a positive number is positive, if there is one
* `exists_significant` : the significant digits of a positive coefficient begin with one that is no
  zero
-/

namespace SecretClient

namespace Fraction

theorem scale_num_pos {n b : Nat} (hn : 0 < n) (hb : 0 < b) (e : Int) : 0 < (scale n b e).num := by
  unfold scale
  split
  · exact Nat.mul_pos hn (Nat.pow_pos hb)
  · exact hn

theorem scale_den_pos {n b : Nat} (hb : 0 < b) (e : Int) : 0 < (scale n b e).den := by
  unfold scale
  split
  · exact Nat.one_pos
  · exact Nat.pow_pos hb

theorem scale_zero_num (b : Nat) (e : Int) : (scale 0 b e).num = 0 := by
  unfold scale
  split
  · exact Nat.zero_mul _
  · rfl

end Fraction

/-- Zero does not round to a positive number. -/
theorem Binary.covers_zero {b : Binary} (h : 0 < b.mantissa) (place : Int) :
    b.covers (Decimal.value ⟨0, place⟩) = false := by
  have hnum : (Decimal.value ⟨0, place⟩).num = 0 := Fraction.scale_zero_num 10 place
  have hden : 0 < (Decimal.value ⟨0, place⟩).den := Fraction.scale_den_pos (by decide) place
  have hlower : 0 < b.lower.num := by
    refine Fraction.scale_num_pos ?_ (by decide) _
    split <;> omega
  have hpos : 0 < b.lower.num * (Decimal.value ⟨0, place⟩).den := Nat.mul_pos hlower hden
  unfold covers Fraction.lt
  rw [hnum, Nat.zero_mul, decide_eq_true hpos, decide_eq_false (Nat.not_lt_zero _)]
  simp

namespace Decimal

theorem pick?_coefficient {b : Binary} {low high d : Decimal} (h : pick? b low high = some d)
    (hlow : low.coefficient = 0 → b.covers low.value = false) (hhigh : 0 < high.coefficient) :
    0 < d.coefficient := by
  have hpos : b.covers low.value = true → 0 < low.coefficient := by
    intro hcovers
    refine Nat.pos_of_ne_zero fun hzero => ?_
    rw [hlow hzero] at hcovers
    cases hcovers
  unfold pick? at h
  split at h
  · cases h
  · next hl _ =>
    cases h
    exact hpos hl
  · cases h
    exact hhigh
  · next hl _ =>
    dsimp only at h
    split at h
    · cases h
      exact hpos hl
    · split at h
      · cases h
        exact hhigh
      · split at h
        · cases h
          exact hpos hl
        · cases h
          exact hhigh

theorem search_coefficient {b : Binary} (h : 0 < b.mantissa) :
    ∀ left count : Nat, search b count left = ⟨0, 0⟩ ∨ 0 < (search b count left).coefficient
  | 0, _ => Or.inl rfl
  | left + 1, count => by
    unfold search
    dsimp only
    split
    · next d hd =>
      refine Or.inr (pick?_coefficient hd (fun hzero => ?_) (Nat.succ_pos _))
      dsimp only at hzero
      rw [hzero]
      exact Binary.covers_zero h _
    · exact search_coefficient h left (count + 1)

/-- The shortest decimal of a positive number is positive, if there is one. -/
theorem shortest_coefficient {b : Binary} (h : 0 < b.mantissa) :
    shortest b = ⟨0, 0⟩ ∨ 0 < (shortest b).coefficient :=
  search_coefficient h 17 1

/-- **The significant digits of a positive coefficient begin with one that is no zero.** -/
theorem exists_significant {n : Nat} (h : 0 < n) :
    ∃ d ds, (significant n).1 = (d :: ds).map Nat.digitChar ∧ Digit.Canonical d ds ∧ d ≠ 0 := by
  obtain ⟨d, ds, htext, hnumber, hlt, halone⟩ := Digit.exists_digits n
  have hd : d ≠ 0 := by
    intro hzero
    rw [hzero, halone hzero] at hnumber
    have hn : n = 0 := hnumber.symm
    omega
  have hchar : ¬ decide (Nat.digitChar d = '0') = true := by
    rw [decide_eq_true_eq, Nat.digitChar_eq_zero]
    exact hd
  have hkept : (significant n).1
      = ((d :: ds).map Nat.digitChar).rdropWhile fun c => decide (c = '0') := by
    unfold significant List.rdropWhile
    rw [htext]
  -- taking the zeros off the end leaves a beginning of the digits, with the first of them
  have hprefix := List.prefix_iff_eq_take.mp
    (List.rdropWhile_prefix (fun c => decide (c = '0')) (l := (d :: ds).map Nat.digitChar))
  rw [← hkept, ← List.map_take] at hprefix
  have hne : (significant n).1 ≠ [] := by
    rw [hkept, Ne, List.rdropWhile_eq_nil_iff]
    exact fun hall => hchar (hall _ List.mem_cons_self)
  obtain ⟨k, hk⟩ : ∃ k, (significant n).1.length = k + 1 :=
    Nat.exists_eq_succ_of_ne_zero fun hlength => hne (List.eq_nil_of_length_eq_zero hlength)
  rw [hk, List.take_succ_cons] at hprefix
  refine ⟨d, ds.take k, hprefix, ⟨?_, fun hzero => absurd hzero hd⟩, hd⟩
  intro e he
  rcases List.mem_cons.mp he with rfl | he
  · exact hlt e List.mem_cons_self
  · exact hlt e (List.mem_cons_of_mem _ (List.mem_of_mem_take he))

end Decimal

end SecretClient
