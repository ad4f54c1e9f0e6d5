import SecretClient.Proofs.Json.Spelling

/-!
# Integers in words of 64 bits

The digits of an integer are gathered in a word of 64 bits, whose arithmetic wraps, and a negative
integer is negated in a word with a sign. Before each digit it is asked whether the word would still
hold the number, so that no step wraps; a negation that wraps gives a number that is not negative, and
is not taken.

* `takeDigits_exact` : the word is the number of the digits that were taken
* `negated?_eq_some_iff` : which words are negated, and to what
* `word?_eq_some_iff`, `toNumber_eq_wordNumber` : the number of an integer literal is the one that is
  read in words
-/

namespace SecretClient.Json

/-! ## Gathering digits -/

/-- The word behind one more digit. -/
def pushDigit (n : UInt64) (d : Nat) : UInt64 := n * 10 + UInt64.ofNat d

/-- The greatest word. -/
def maxWord : UInt64 := 0xFFFFFFFFFFFFFFFF

/-- Whether a word has no room for one more digit. -/
def overflows (n : UInt64) (d : Nat) : Bool :=
  maxWord / 10 ≤ n && (maxWord / 10 < n || maxWord % 10 < UInt64.ofNat d)

/-- Gathers digits as long as there is room for them: the word, and the digits that are left. -/
def takeDigits (n : UInt64) : List Nat → UInt64 × List Nat
  | [] => (n, [])
  | d :: rest => if overflows n d then (n, d :: rest) else takeDigits (pushDigit n d) rest

theorem toNat_ofNat_digit {d : Nat} (h : d < 10) : (UInt64.ofNat d).toNat = d := by
  rw [UInt64.toNat_ofNat']
  omega

/-- There is no room exactly if the number with the digit has more than 64 bits. -/
theorem overflows_iff {n : UInt64} {d : Nat} (h : d < 10) :
    overflows n d = true ↔ 2 ^ 64 ≤ n.toNat * 10 + d := by
  have hquotient : (maxWord / 10).toNat = 1844674407370955161 := rfl
  have hremainder : (maxWord % 10).toNat = 5 := rfl
  simp only [overflows, Bool.and_eq_true, Bool.or_eq_true, decide_eq_true_eq,
    UInt64.le_iff_toNat_le, UInt64.lt_iff_toNat_lt, hquotient, hremainder, toNat_ofNat_digit h]
  omega

/-- **A digit for which there is room does not make the word wrap.** -/
theorem toNat_pushDigit {n : UInt64} {d : Nat} (h : d < 10) (hroom : overflows n d = false) :
    (pushDigit n d).toNat = n.toNat * 10 + d := by
  rw [← Bool.not_eq_true, overflows_iff h] at hroom
  have hten : (10 : UInt64).toNat = 10 := rfl
  rw [pushDigit, UInt64.toNat_add, UInt64.toNat_mul, hten, toNat_ofNat_digit h]
  omega

/-- **The word is the number of the digits that were taken**, and the first that is left has no room. -/
theorem takeDigits_exact {ds : List Nat} (h : ∀ d ∈ ds, d < 10) (n : UInt64) :
    ∃ taken, ds = taken ++ (takeDigits n ds).2 ∧
      (takeDigits n ds).1.toNat = taken.foldl (fun n d => n * 10 + d) n.toNat ∧
      ∀ d ∈ (takeDigits n ds).2.head?, 2 ^ 64 ≤ (takeDigits n ds).1.toNat * 10 + d := by
  induction ds generalizing n with
  | nil => exact ⟨[], rfl, rfl, by simp [takeDigits]⟩
  | cons d ds ih =>
    have hd := h d List.mem_cons_self
    rw [takeDigits]
    split
    · next hfull =>
      refine ⟨[], rfl, rfl, fun e he => ?_⟩
      cases he
      exact (overflows_iff hd).mp hfull
    · next hroom =>
      obtain ⟨taken, hds, hword, hleft⟩ :=
        ih (fun e he => h e (List.mem_cons_of_mem _ he)) (pushDigit n d)
      refine ⟨d :: taken, congrArg (d :: ·) hds, ?_, hleft⟩
      rw [hword, toNat_pushDigit hd (Bool.not_eq_true _ ▸ hroom)]
      rfl

/-- The word is gathered like the number that is scaled for a floating point number. -/
theorem absorb_eq_takeDigits {ds : List Nat} (h : ∀ d ∈ ds, d < 10) (n : UInt64) :
    absorb n.toNat ds = ((takeDigits n ds).1.toNat, (takeDigits n ds).2.length) := by
  induction ds generalizing n with
  | nil => rfl
  | cons d ds ih =>
    have hd := h d List.mem_cons_self
    rw [absorb, takeDigits]
    cases hfull : overflows n d with
    | true =>
      have hbound : ¬ n.toNat * 10 + d < Nat.pow 2 64 :=
        Nat.not_lt.mpr ((overflows_iff hd).mp hfull)
      rw [if_neg hbound]
      rfl
    | false =>
      have hroom : n.toNat * 10 + d < Nat.pow 2 64 := by
        rw [← Bool.not_eq_true, overflows_iff hd] at hfull
        exact Nat.lt_of_not_le hfull
      rw [if_pos hroom, ← toNat_pushDigit hd hfull]
      exact ih (fun e he => h e (List.mem_cons_of_mem _ he)) _

theorem le_foldl_digits (ds : List Nat) (n : Nat) : n ≤ ds.foldl (fun n d => n * 10 + d) n := by
  induction ds generalizing n with
  | nil => exact Nat.le_refl n
  | cons d ds ih =>
    refine Nat.le_trans ?_ (ih (n * 10 + d))
    omega

/-- All digits are taken exactly if their number has 64 bits; then the word is that number. -/
theorem takeDigits_eq_nil_iff {ds : List Nat} (h : ∀ d ∈ ds, d < 10) {n : UInt64} :
    takeDigits 0 ds = (n, []) ↔ n.toNat = Digit.number 10 ds := by
  obtain ⟨taken, hds, hword, hleft⟩ := takeDigits_exact h 0
  generalize takeDigits 0 ds = result at hds hword hleft
  obtain ⟨m, left⟩ := result
  dsimp only at hds hword hleft
  cases left with
  | nil =>
    rw [List.append_nil] at hds
    subst hds
    have hnumber : m.toNat = Digit.number 10 ds := hword
    rw [← hnumber, UInt64.toNat_inj]
    simp [eq_comm]
  | cons d left =>
    -- the digits that are left make the number greater still
    have hmore : Digit.number 10 ds
        = left.foldl (fun n d => n * 10 + d) (m.toNat * 10 + d) := by
      rw [hds, hword]
      simp [Digit.number]
    have hbound := hleft d rfl
    have hle := le_foldl_digits left (m.toNat * 10 + d)
    have hword := n.toNat_lt
    constructor
    · intro heq
      cases heq
    · intro heq
      omega

/-! ## Negating -/

/-- The negation of a word in a word with a sign, if it is negative. -/
def negated? (n : UInt64) : Option Int64 := if 0 ≤ -n.toInt64 then none else some (-n.toInt64)

theorem toInt_toInt64 (n : UInt64) : n.toInt64.toInt = Int.bmod n.toNat (2 ^ 64) :=
  BitVec.toInt_eq_toNat_bmod n.toBitVec

/-- **What is taken as a negation is one**, and a word is negated exactly if it is neither zero nor too
great. -/
theorem negated?_eq_some_iff {n : UInt64} {m : Int64} :
    negated? n = some m ↔ m.toInt = -(n.toNat : Int) ∧ 0 < n.toNat ∧ n.toNat ≤ 2 ^ 63 := by
  have hlt := n.toNat_lt
  have hzero : (0 : Int64).toInt = 0 := rfl
  have hnegation : (-n.toInt64).toInt = Int.bmod (-Int.bmod n.toNat (2 ^ 64)) (2 ^ 64) := by
    rw [Int64.toInt_neg, toInt_toInt64]
  simp only [Int.bmod_def] at hnegation
  unfold negated?
  split
  · next hwrapped =>
    rw [Int64.le_iff_toInt_le, hzero] at hwrapped
    constructor
    · intro heq
      cases heq
    · intro hm
      omega
  · next hnegative =>
    rw [Int64.le_iff_toInt_le, hzero] at hnegative
    rw [Option.some.injEq, ← Int64.toInt_inj]
    omega

/-! ## Integers -/

/-- The integer that the digits of a literal write, if it can be read in words. -/
def Literal.word? (l : Literal) : Option Int :=
  match takeDigits 0 l.whole with
  | (n, []) => if l.negative then (negated? n).map Int64.toInt else some n.toNat
  | (_, _ :: _) => none

theorem Literal.WellFormed.lt_ten {l : Literal} (h : l.WellFormed) : ∀ d ∈ l.whole, d < 10 := by
  obtain ⟨d, ds, hwhole, hcanonical⟩ := h.whole
  rw [hwhole]
  exact hcanonical.lt_ten

/-- **The words hold an integer** exactly if it is in range and no negative zero. -/
theorem word?_eq_some_iff {l : Literal} (h : l.WellFormed) {n : Int} :
    l.word? = some n ↔
      n = l.toInt ∧ l.isNegativeZero = false ∧ minInteger ≤ n ∧ n ≤ maxInteger := by
  have hmin : minInteger = -2 ^ 63 := by decide
  have hmax : maxInteger = 2 ^ 64 - 1 := by decide
  have htaken := fun m => takeDigits_eq_nil_iff h.lt_ten (n := m)
  unfold Literal.word? Literal.toInt Literal.isNegativeZero
  generalize takeDigits 0 l.whole = result at htaken
  generalize Digit.number 10 l.whole = number at htaken
  obtain ⟨m, left⟩ := result
  cases left with
  | cons d left =>
    -- digits are left, so that no word is the number
    have hbound : 2 ^ 64 ≤ number := by
      by_contra hlt
      have hword : (UInt64.ofNat number).toNat = number := by
        rw [UInt64.toNat_ofNat']
        omega
      cases (htaken _).mpr hword
    cases l.negative <;> simp <;> omega
  | nil =>
    have hword : m.toNat = number := (htaken m).mp rfl
    have hlt := m.toNat_lt
    cases hnegative : l.negative with
    | false =>
      simp [hword]
      omega
    | true =>
      simp only [if_true, Option.map_eq_some_iff, negated?_eq_some_iff, hword, Bool.true_and,
        beq_eq_false_iff_ne]
      constructor
      · rintro ⟨w, ⟨hw, hpos, hle⟩, rfl⟩
        omega
      · rintro ⟨rfl, hzero, hlow, hhigh⟩
        have hneg : (Int64.ofInt (-number)).toInt = -number :=
          Int64.toInt_ofInt_of_le (by omega) (by omega)
        exact ⟨Int64.ofInt (-number), ⟨hneg, by omega, by omega⟩, hneg⟩

/-- The number of an integer literal that is read in words: the integer that they hold, or else a
floating point number. -/
def Literal.wordNumber (l : Literal) : Except Nat Number :=
  match l.word? with
  | some n => .ok (.integer n)
  | none => l.toFloat.map .float

/-- **The number of an integer literal is the one that is read in words.** -/
theorem toNumber_eq_wordNumber {l : Literal} (h : l.WellFormed) (hint : l.isInteger = true) :
    l.toNumber = l.wordNumber := by
  unfold Literal.toNumber Literal.wordNumber
  cases hword : l.word? with
  | some n =>
    obtain ⟨rfl, hzero, hlow, hhigh⟩ := (word?_eq_some_iff h).mp hword
    rw [if_pos ⟨hint, hzero, hlow, hhigh⟩]
  | none =>
    rw [if_neg]
    rintro ⟨-, hzero, hlow, hhigh⟩
    cases hword.symm.trans ((word?_eq_some_iff h).mpr ⟨rfl, hzero, hlow, hhigh⟩)

end SecretClient.Json
