import SecretClient.Unicode.Table

/-!
# Looking code points up

What the binary search for a row of a table finds, said by the rows.

* `lastUpTo?_sound` : the row that is found is one of the table and begins at or before the code point
* `lastUpTo?_eq_some` : in a table of rows in order, the row that covers a code point is found
* `Ranges.exists_of_has`, `RangeMap.exists_of_get?` : what is found in a table, a row of it covers
-/

namespace SecretClient.Unicode

variable {α : Type} {key : α → Nat} {rows : Array α} {n : Nat}

/-! ## The binary search -/

/-- The rows of an array in front of the index `k` are those that begin at or before `n`, as far as
its neighbours show. -/
structure Cuts (key : α → Nat) (rows : Array α) (n k : Nat) : Prop where
  le_size : k ≤ rows.size
  before : ∀ i row, i + 1 = k → rows[i]? = some row → key row ≤ n
  after : ∀ row, rows[k]? = some row → n < key row

/-- **The search ends between a row that begins at or before `n` and one that does not.** -/
theorem cuts_countUpTo {lo hi : Nat} (hle : lo ≤ hi) (hsize : hi ≤ rows.size)
    (hlo : ∀ i row, i + 1 = lo → rows[i]? = some row → key row ≤ n)
    (hhi : ∀ row, rows[hi]? = some row → n < key row) :
    Cuts key rows n (countUpTo key rows n lo hi) := by
  fun_induction countUpTo key rows n lo hi with
  | case1 lo hi hlt mid row hrow hkey ih =>
    refine ih (by omega) hsize ?_ hhi
    intro i row' hi hrow'
    rw [show i = mid by omega, hrow] at hrow'
    rwa [← Option.some.inj hrow']
  | case2 lo hi hlt mid row hrow hkey ih =>
    refine ih (by omega) (by omega) hlo ?_
    intro row' hrow'
    rw [hrow] at hrow'
    rw [← Option.some.inj hrow']
    omega
  | case3 lo hi hlt mid hnone =>
    -- the middle of a part that is not empty is in the array
    rw [Array.getElem?_eq_none_iff] at hnone
    omega
  | case4 lo hi hlt =>
    obtain rfl : lo = hi := by omega
    exact ⟨hsize, hlo, hhi⟩

theorem cuts_lastUpTo? : Cuts key rows n (countUpTo key rows n 0 rows.size) := by
  refine cuts_countUpTo (Nat.zero_le _) (Nat.le_refl _) ?_ ?_
  · intro i row hi
    omega
  · intro row hrow
    rw [Array.getElem?_eq_none (Nat.le_refl _)] at hrow
    cases hrow

/-- **The row that is found is one of the table and begins at or before the code point.** -/
theorem lastUpTo?_sound {row : α} (h : lastUpTo? key rows n = some row) :
    row ∈ rows.toList ∧ key row ≤ n := by
  have hcuts : Cuts key rows n _ := cuts_lastUpTo?
  unfold lastUpTo? at h
  generalize countUpTo key rows n 0 rows.size = k at h hcuts
  cases k with
  | zero => cases h
  | succ k => exact ⟨Array.mem_toList_iff.mpr (Array.mem_of_getElem? h), hcuts.before k row rfl h⟩

/-- Whether rows stand in order from `start` on: each ends, by `last`, before the next one begins. -/
def inOrder (key last : α → Nat) (start : Nat) : List α → Bool
  | [] => true
  | row :: rest => start ≤ key row && key row ≤ last row && inOrder key last (last row + 1) rest

variable {last : α → Nat}

theorem of_inOrder {start : Nat} {rows : List α} (h : inOrder key last start rows = true) :
    (∀ row ∈ rows, start ≤ key row ∧ key row ≤ last row) ∧
      rows.Pairwise fun r s => last r < key s := by
  induction rows generalizing start with
  | nil => exact ⟨List.forall_mem_nil _, .nil⟩
  | cons row rows ih =>
    simp only [inOrder, Bool.and_eq_true, decide_eq_true_eq] at h
    obtain ⟨⟨hstart, hrow⟩, hrest⟩ := h
    obtain ⟨hbounds, hpairs⟩ := ih hrest
    refine ⟨List.forall_mem_cons.mpr ⟨⟨hstart, hrow⟩, fun r hr => ?_⟩,
      List.pairwise_cons.mpr ⟨fun r hr => (hbounds r hr).1, hpairs⟩⟩
    obtain ⟨hlater, hends⟩ := hbounds r hr
    exact ⟨by omega, hends⟩

/-- **The row that covers a code point is found**, in a table of rows in order. -/
theorem lastUpTo?_eq_some (hsorted : inOrder key last 0 rows.toList = true) {row : α}
    (hrow : row ∈ rows.toList) (hkey : key row ≤ n) (hlast : n ≤ last row) :
    lastUpTo? key rows n = some row := by
  obtain ⟨hbounds, hpairs⟩ := of_inOrder hsorted
  rw [List.pairwise_iff_getElem] at hpairs
  simp only [Array.length_toList, Array.getElem_toList] at hpairs
  obtain ⟨i, hi, rfl⟩ := List.mem_iff_getElem.mp hrow
  rw [Array.length_toList] at hi
  rw [Array.getElem_toList] at hkey hlast ⊢
  have hcuts : Cuts key rows n _ := cuts_lastUpTo?
  unfold lastUpTo?
  generalize countUpTo key rows n 0 rows.size = k at hcuts
  obtain ⟨hsize, hbefore, hafter⟩ := hcuts
  have hpast : i < k := by
    refine Nat.lt_of_not_le fun hki => ?_
    have hlater := hafter rows[k] (Array.getElem?_eq_getElem (by omega))
    rcases Nat.lt_or_eq_of_le hki with hlt | rfl
    · have hends := (hbounds rows[k] (Array.getElem_mem_toList (by omega))).2
      have hbegins := hpairs k i (by omega) hi hlt
      omega
    · omega
  obtain ⟨j, rfl⟩ : ∃ j, k = j + 1 := ⟨k - 1, by omega⟩
  have hlatest : j ≤ i := by
    refine Nat.le_of_not_lt fun hij => ?_
    have hearlier := hbefore j rows[j] rfl (Array.getElem?_eq_getElem (by omega))
    have hbegins := hpairs i j hi (by omega) hij
    omega
  obtain rfl : j = i := by omega
  exact Array.getElem?_eq_getElem hi

/-! ## Sets and maps -/

/-- A code point of a set lies in a row of it. -/
theorem Ranges.exists_of_has {set : Ranges} (h : set.has n = true) :
    ∃ row ∈ set.rows.toList, row.1 ≤ n ∧ n ≤ row.2 := by
  unfold Ranges.has at h
  split at h
  · next first last hrow =>
    obtain ⟨hmem, hfirst⟩ := lastUpTo?_sound hrow
    exact ⟨_, hmem, hfirst, of_decide_eq_true h⟩
  · cases h

/-- A code point with a value lies in a row with that value. -/
theorem RangeMap.exists_of_get? {map : RangeMap} {value : Nat} (h : map.get? n = some value) :
    ∃ row ∈ map.rows.toList, row.1 ≤ n ∧ n ≤ row.2.1 ∧ row.2.2 = value := by
  unfold RangeMap.get? at h
  split at h
  · next first last v hrow =>
    obtain ⟨hmem, hfirst⟩ := lastUpTo?_sound hrow
    obtain ⟨hlast, hvalue⟩ := Option.ite_none_right_eq_some.mp h
    exact ⟨_, hmem, hfirst, hlast, Option.some.inj hvalue⟩
  · cases h

end SecretClient.Unicode
