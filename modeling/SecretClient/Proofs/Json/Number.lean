import SecretClient.Proofs.Decimal.Shortest
import SecretClient.Proofs.Json.Reads

/-!
# Numbers, written and read back

A number ends where what follows continues it no longer (`Stops`). Every number is written as a
literal (`Literal.chars`) that is read back. An integer is so too; what a floating point number is read
as depends on its conversion, which may find it out of range.

* `reads_literal` : a literal is read back
* `reads_integerText` : an integer that is kept as one is read back
* `integer_bounds` : no other integer is read
* `outcome_floatText` : what becomes of the text of a floating point number
-/

namespace SecretClient.Json

open Digit (Canonical)

/-! ## Digits -/

/-- Digits end in front of this. -/
def NoDigit (t : Input) : Prop := ∀ c ∈ t.head?, digitItem? c = none

/-- A number ends in front of this. -/
def Stops (t : Input) : Prop :=
  ∀ c ∈ t.head?, digitItem? c = none ∧ c ≠ some '.' ∧ c ≠ some 'e' ∧ c ≠ some 'E'

theorem Stops.noDigit {t : Input} (h : Stops t) : NoDigit t := fun c hc => (h c hc).1

/-- Neither a blank nor a separator continues a number. -/
theorem stops_cons {c : Char} (h : c ∈ [' ', '\t', '\n', '\r', ',', ']', '\x7d']) (t : Input) :
    Stops (some c :: t) := by
  intro d hd
  cases hd
  simp only [List.mem_cons, List.not_mem_nil, or_false] at h
  rcases h with rfl | rfl | rfl | rfl | rfl | rfl | rfl
  all_goals exact ⟨rfl, by decide, by decide, by decide⟩

/-- The characters of digits. -/
def digitChars (ds : List Nat) : List Char := ds.map Nat.digitChar

theorem digitItem?_digitChar {d : Nat} (h : d < 10) :
    digitItem? (some (Nat.digitChar d)) = some d := by
  have hall : ∀ d < 10, digitItem? (some (Nat.digitChar d)) = some d := by decide
  exact hall d h

theorem digitsOf_digitChars {ds : List Nat} (h : ∀ d ∈ ds, d < 10) {t : Input} (ht : NoDigit t) :
    digitsOf (Input.ofChars (digitChars ds) ++ t) = ds ∧
      (behindDigits (Input.ofChars (digitChars ds) ++ t)).1 = t := by
  induction ds with
  | nil =>
    cases t with
    | nil => exact ⟨rfl, rfl⟩
    | cons c t =>
      have hc : digitItem? c = none := ht c rfl
      simp [digitsOf, behindDigits, digitChars, Input.ofChars, hc]
  | cons d ds ih =>
    have hd : digitItem? (some (Nat.digitChar d)) = some d :=
      digitItem?_digitChar (h d List.mem_cons_self)
    obtain ⟨hdigits, hbehind⟩ := ih fun e he => h e (List.mem_cons_of_mem _ he)
    constructor
    · unfold digitsOf at hdigits ⊢
      simp only [digitChars, Input.ofChars, List.map_cons, List.cons_append] at hdigits ⊢
      rw [List.takeWhile_cons_of_pos (by rw [hd]; rfl), List.filterMap_cons_some hd, hdigits]
    · unfold behindDigits at hbehind ⊢
      simp only [digitChars, Input.ofChars, List.map_cons, List.cons_append] at hbehind ⊢
      rw [List.dropWhile_cons_of_pos (by rw [hd]; rfl), hbehind]

/-- Nothing stands behind a whole text, so a number ends there too. -/
theorem stops_nil : Stops [] := by
  intro c hc
  cases hc

/-! ## Literals -/

namespace Literal

/-- The text of a fraction. -/
def fractionChars : List Nat → List Char
  | [] => []
  | d :: ds => '.' :: digitChars (d :: ds)

/-- The text of an exponent. -/
def exponentChars : Option (Bool × List Nat) → List Char
  | none => []
  | some (negative, ds) => 'e' :: (if negative then '-' else '+') :: digitChars ds

/-- The text of a literal. -/
def chars (l : Literal) : List Char :=
  (if l.negative then ['-'] else []) ++
    (digitChars l.whole ++ (fractionChars l.fraction ++ exponentChars l.exponent))

/-- The literal has a text. -/
structure WellFormed (l : Literal) : Prop where
  whole : ∃ d ds, l.whole = d :: ds ∧ Canonical d ds
  fraction : ∀ d ∈ l.fraction, d < 10
  exponent : ∀ e ∈ l.exponent, e.2 ≠ [] ∧ ∀ d ∈ e.2, d < 10

end Literal

open Literal (fractionChars exponentChars)

theorem reads_wholePart {d : Nat} {ds : List Nat} (h : Canonical d ds) {t : Input}
    (ht : NoDigit t) :
    Reads wholePart (Input.ofChars (digitChars (d :: ds)) ++ t) (d :: ds) t := by
  obtain ⟨hdigits, hbehind⟩ :=
    digitsOf_digitChars (fun e he => h.lt_ten e (List.mem_cons_of_mem _ he)) ht
  have hd : digitItem? (some (Nat.digitChar d)) = some d :=
    digitItem?_digitChar (h.lt_ten d List.mem_cons_self)
  change Reads wholePart (some (Nat.digitChar d) :: (Input.ofChars (digitChars ds) ++ t)) (d :: ds) t
  unfold Reads wholePart
  simp only [hd, hdigits]
  rw [if_neg fun hzero => hzero.2 (h.alone hzero.1)]
  exact congrArg (fun u => Except.ok (d :: ds, u)) hbehind

theorem fractionPart_fractionChars {ds : List Nat} (h : ∀ d ∈ ds, d < 10) {t : Input}
    (ht : NoDigit t) (hpoint : ∀ c ∈ t.head?, c ≠ some '.') :
    ∃ r, fractionPart (Input.ofChars (fractionChars ds) ++ t) = .ok (ds, r) ∧ r.1 = t := by
  cases ds with
  | nil =>
    change ∃ r, fractionPart t = .ok ([], r) ∧ r.1 = t
    unfold fractionPart
    split
    · exact absurd rfl (hpoint _ rfl)
    · exact ⟨_, rfl, rfl⟩
  | cons d ds =>
    obtain ⟨hdigits, hbehind⟩ := digitsOf_digitChars h ht
    change ∃ r, fractionPart (some '.' :: (Input.ofChars (digitChars (d :: ds)) ++ t))
      = .ok (d :: ds, r) ∧ r.1 = t
    unfold fractionPart
    simp only [hdigits]
    exact ⟨_, rfl, hbehind⟩

theorem exponentPart_exponentChars {exponent : Option (Bool × List Nat)}
    (h : ∀ e ∈ exponent, e.2 ≠ [] ∧ ∀ d ∈ e.2, d < 10) {t : Input} (ht : Stops t) :
    ∃ r, exponentPart (Input.ofChars (exponentChars exponent) ++ t) = .ok (exponent, r) ∧
      r.1 = t := by
  cases exponent with
  | none =>
    change ∃ r, exponentPart t = .ok (none, r) ∧ r.1 = t
    cases t with
    | nil => exact ⟨_, rfl, rfl⟩
    | cons c t =>
      obtain ⟨-, -, he, hE⟩ := ht c rfl
      unfold exponentPart
      dsimp only
      rw [if_neg (not_or.mpr ⟨he, hE⟩)]
      exact ⟨_, rfl, rfl⟩
  | some e =>
    obtain ⟨negative, ds⟩ := e
    obtain ⟨hne, hlt⟩ := h _ rfl
    obtain ⟨hdigits, hbehind⟩ := digitsOf_digitChars hlt ht.noDigit
    have hsign : exponentSign (some (if negative then '-' else '+') ::
        (Input.ofChars (digitChars ds) ++ t))
        = (negative, ⟨Input.ofChars (digitChars ds) ++ t, Nat.le_succ _⟩) := by
      cases negative with
      | false => rfl
      | true => rfl
    change ∃ r, exponentPart (some 'e' :: some (if negative then '-' else '+') ::
      (Input.ofChars (digitChars ds) ++ t)) = .ok (some (negative, ds), r) ∧ r.1 = t
    obtain ⟨d, ds, rfl⟩ := List.exists_cons_of_ne_nil hne
    unfold exponentPart
    dsimp only
    rw [if_pos (Or.inl rfl), hsign]
    simp only [hdigits]
    exact ⟨_, rfl, hbehind⟩

theorem stops_exponentChars (exponent : Option (Bool × List Nat)) {t : Input} (ht : Stops t) :
    NoDigit (Input.ofChars (exponentChars exponent) ++ t) ∧
      ∀ c ∈ (Input.ofChars (exponentChars exponent) ++ t).head?, c ≠ some '.' := by
  cases exponent with
  | none => exact ⟨ht.noDigit, fun c hc => (ht c hc).2.1⟩
  | some e =>
    constructor
    · intro c hc
      cases hc
      rfl
    · intro c hc
      cases hc
      decide

theorem noDigit_fractionChars (ds : List Nat) {t : Input} (ht : NoDigit t) :
    NoDigit (Input.ofChars (fractionChars ds) ++ t) := by
  cases ds with
  | nil => exact ht
  | cons d ds =>
    intro c hc
    cases hc
    rfl

theorem reads_unsignedLiteral {negative : Bool} {s t u w : Input} {whole fraction : List Nat}
    {exponent : Option (Bool × List Nat)} (hwhole : Reads wholePart s whole u)
    (hfraction : ∃ r, fractionPart u = .ok (fraction, r) ∧ r.1 = w)
    (hexponent : ∃ r, exponentPart w = .ok (exponent, r) ∧ r.1 = t) :
    Reads (unsignedLiteral negative) s ⟨negative, whole, fraction, exponent⟩ t := by
  obtain ⟨r, hr, rfl⟩ := hwhole.exists_ok
  obtain ⟨r', hr', rfl⟩ := hfraction
  obtain ⟨r'', hr'', rfl⟩ := hexponent
  unfold Reads unsignedLiteral
  rw [hr]
  dsimp only
  rw [hr']
  dsimp only
  rw [hr'']
  rfl

theorem reads_literal_minus {s t : Input} {l : Literal} (h : Reads (unsignedLiteral true) s l t) :
    Reads literal (some '-' :: s) l t := by
  obtain ⟨r, hr, rfl⟩ := h.exists_ok
  unfold Reads literal
  dsimp only
  rw [if_pos rfl, hr]
  rfl

theorem reads_literal_digit {c : Option Char} (hc : c ≠ some '-') {s t : Input} {l : Literal}
    (h : Reads (unsignedLiteral false) (c :: s) l t) : Reads literal (c :: s) l t := by
  unfold Reads literal
  dsimp only
  rw [if_neg hc]
  exact h

theorem digitChar_ne_minus {d : Nat} (h : d < 10) : some (Nat.digitChar d) ≠ some '-' := by
  intro hminus
  have hd := digitItem?_digitChar h
  rw [hminus] at hd
  cases hd

/-- **A literal is read back.** -/
theorem reads_literal {l : Literal} (h : l.WellFormed) {t : Input} (ht : Stops t) :
    Reads literal (Input.ofChars l.chars ++ t) l t := by
  obtain ⟨negative, whole, fraction, exponent⟩ := l
  obtain ⟨⟨d, ds, rfl, hcanonical⟩, hfraction, hexponent⟩ := h
  obtain ⟨hdigit, hpoint⟩ := stops_exponentChars exponent ht
  have hread : Reads (unsignedLiteral negative)
      (Input.ofChars (digitChars (d :: ds)) ++ (Input.ofChars (fractionChars fraction) ++
        (Input.ofChars (exponentChars exponent) ++ t))) ⟨negative, d :: ds, fraction, exponent⟩ t :=
    reads_unsignedLiteral (reads_wholePart hcanonical (noDigit_fractionChars fraction hdigit))
      (fractionPart_fractionChars hfraction hdigit hpoint)
      (exponentPart_exponentChars hexponent ht)
  have hchars : ∀ sign : List Char, Input.ofChars (sign ++ (digitChars (d :: ds) ++
      (fractionChars fraction ++ exponentChars exponent))) ++ t
      = Input.ofChars sign ++ (Input.ofChars (digitChars (d :: ds)) ++
        (Input.ofChars (fractionChars fraction) ++ (Input.ofChars (exponentChars exponent) ++ t))) := by
    simp [Input.ofChars]
  rw [Literal.chars, hchars]
  cases negative with
  | true => exact reads_literal_minus hread
  | false =>
    exact reads_literal_digit (digitChar_ne_minus (hcanonical.lt_ten d List.mem_cons_self)) hread

/-- The text of a literal begins with its sign or a digit. -/
theorem exists_chars {l : Literal} (h : l.WellFormed) :
    ∃ c r, l.chars = c :: r ∧ beginsNumber (some c) = true := by
  obtain ⟨negative, whole, fraction, exponent⟩ := l
  obtain ⟨⟨d, ds, rfl, hcanonical⟩, -, -⟩ := h
  cases negative with
  | true => exact ⟨'-', _, rfl, rfl⟩
  | false =>
    refine ⟨Nat.digitChar d, _, rfl, ?_⟩
    unfold beginsNumber
    rw [digitItem?_digitChar (hcanonical.lt_ten d List.mem_cons_self)]
    exact Bool.or_true _

/-! ## The values of literals -/

theorem outcome_number (s : Input) :
    outcome (number s) =
      match outcome (literal s) with
      | .error e => .error e
      | .ok (l, t) =>
        match l.toNumber with
        | .ok n => .ok (n, t)
        | .error _ => .error .numberOutOfRange := by
  unfold number
  cases literal s with
  | error e => rfl
  | ok result =>
    simp only [outcome]
    cases result.1.toNumber <;> rfl

/-- A number is read if its literal is and has a value. -/
theorem reads_number {s t : Input} {n : Number} :
    Reads number s n t ↔ ∃ l, Reads literal s l t ∧ l.toNumber = .ok n := by
  simp only [Reads]
  rw [outcome_number]
  rcases outcome (literal s) with e | ⟨l, u⟩
  · simp
  · dsimp only
    cases hl : l.toNumber with
    | error unread =>
      simp only [reduceCtorEq, false_iff]
      rintro ⟨l', hread, hnumber⟩
      cases hread
      rw [hl] at hnumber
      cases hnumber
    | ok m =>
      constructor
      · intro h
        cases h
        exact ⟨l, rfl, hl⟩
      · rintro ⟨l', hread, hnumber⟩
        cases hread
        rw [hl] at hnumber
        cases hnumber
        rfl

/-- **No integer is read that is not between the bounds.** -/
theorem integer_bounds {s t : Input} {n : Int} (h : Reads number s (.integer n) t) :
    minInteger ≤ n ∧ n ≤ maxInteger := by
  obtain ⟨l, -, hl⟩ := reads_number.mp h
  unfold Literal.toNumber at hl
  split at hl
  · next hbounds =>
    cases hl
    exact ⟨hbounds.2.2.1, hbounds.2.2.2⟩
  · cases hfloat : l.toFloat with
    | error unread => rw [hfloat] at hl; cases hl
    | ok x => rw [hfloat] at hl; cases hl

/-! ## Integers -/

/-- The literal of an integer. -/
theorem exists_integerLiteral (n : Int) :
    ∃ l : Literal, l.WellFormed ∧ l.chars = Number.text (.integer n) ∧
      (minInteger ≤ n → n ≤ maxInteger → l.toNumber = .ok (.integer n)) := by
  obtain ⟨d, ds, htext, hnumber, hcanonical⟩ := Digit.exists_digits n.natAbs
  refine ⟨⟨decide (n < 0), d :: ds, [], none⟩, ⟨⟨d, ds, rfl, hcanonical⟩, ?_, ?_⟩, ?_, ?_⟩
  · intro e he
    cases he
  · intro e he
    cases he
  · simp [Literal.chars, Number.text, htext, fractionChars, exponentChars, digitChars]
  · intro hmin hmax
    have hint : Literal.toInt ⟨decide (n < 0), d :: ds, [], none⟩ = n := by
      simp only [Literal.toInt, hnumber, decide_eq_true_eq]
      split <;> omega
    have hzero : Literal.isNegativeZero ⟨decide (n < 0), d :: ds, [], none⟩ = false := by
      simp only [Literal.isNegativeZero, hnumber, Bool.and_eq_false_iff, decide_eq_false_iff_not,
        beq_eq_false_iff_ne]
      omega
    unfold Literal.toNumber
    rw [hint, if_pos ⟨rfl, hzero, hmin, hmax⟩]

/-- **An integer is read back.** -/
theorem reads_integerText {n : Int} (hmin : minInteger ≤ n) (hmax : n ≤ maxInteger) {t : Input}
    (ht : Stops t) : Reads number (Input.ofChars (Number.text (.integer n)) ++ t) (.integer n) t := by
  obtain ⟨l, hformed, hchars, hvalue⟩ := exists_integerLiteral n
  rw [← hchars]
  exact reads_number.mpr ⟨l, reads_literal hformed ht, hvalue hmin hmax⟩

/-! ## Floating point numbers -/

theorem fractionChars_of_ne_nil {ds : List Nat} (h : ds ≠ []) :
    fractionChars ds = '.' :: digitChars ds := by
  obtain ⟨d, ds, rfl⟩ := List.exists_cons_of_ne_nil h
  rfl

theorem digitChars_append (ds es : List Nat) :
    digitChars (ds ++ es) = digitChars ds ++ digitChars es := List.map_append

theorem digitChars_replicate (k : Nat) : digitChars (List.replicate k 0) = List.replicate k '0' :=
  List.map_replicate

theorem zero_lt_ten : ∀ e ∈ [0], e < 10 := by decide

theorem canonical_zero : Canonical 0 [] := ⟨zero_lt_ten, fun _ => rfl⟩

theorem lt_ten_of_mem_replicate {k e : Nat} (h : e ∈ List.replicate k 0) : e < 10 := by
  rw [List.eq_of_mem_replicate h]
  decide

/-- The text is that of a literal without a sign, with a point or an exponent. -/
def IsFraction (text : List Char) : Prop :=
  ∃ l : Literal, l.WellFormed ∧ l.isInteger = false ∧ l.negative = false ∧ l.chars = text

/-- A digit, a point if there are more digits, and an exponent. -/
theorem isFraction_scientific {d : Nat} {ds : List Nat} (h : Canonical d ds) (e : Int) :
    IsFraction ((match digitChars (d :: ds) with
      | [] => []
      | [d] => [d]
      | d :: rest => d :: '.' :: rest) ++
      'e' :: (if e < 0 then '-' else '+') :: Digit.text 10 e.natAbs) := by
  obtain ⟨b, bs, htext, -, hcanonical⟩ := Digit.exists_digits e.natAbs
  refine ⟨⟨false, [d], ds, some (decide (e < 0), b :: bs)⟩,
    ⟨⟨d, [], rfl, ⟨?_, fun _ => rfl⟩⟩, ?_, ?_⟩, Bool.and_false _, rfl, ?_⟩
  · intro c hc
    rw [List.mem_singleton.mp hc]
    exact h.lt_ten d List.mem_cons_self
  · exact fun c hc => h.lt_ten c (List.mem_cons_of_mem _ hc)
  · intro c hc
    cases hc
    exact ⟨List.cons_ne_nil _ _, hcanonical.lt_ten⟩
  · rw [htext]
    cases ds with
    | nil => simp [Literal.chars, fractionChars, exponentChars, digitChars]
    | cons c ds => simp [Literal.chars, fractionChars, exponentChars, digitChars]

/-- Digits on both sides of a point. -/
theorem isFraction_point {d : Nat} {ds fraction : List Nat} (h : Canonical d ds)
    (hfraction : ∀ e ∈ fraction, e < 10) (hne : fraction ≠ []) :
    IsFraction (digitChars (d :: ds) ++ '.' :: digitChars fraction) := by
  refine ⟨⟨false, d :: ds, fraction, none⟩, ⟨⟨d, ds, rfl, h⟩, hfraction, ?_⟩, ?_, rfl, ?_⟩
  · intro e he
    cases he
  · simp [Literal.isInteger, hne]
  · simp [Literal.chars, fractionChars_of_ne_nil hne, exponentChars]

/-- Digits around a point, the first of them no zero: those behind it may be missing. -/
theorem isFraction_around {d : Nat} {ds : List Nat} (hlt : ∀ e ∈ d :: ds, e < 10) (hd : d ≠ 0)
    (k : Nat) :
    IsFraction ((digitChars (d :: ds)).take (k + 1) ++
      '.' :: (if ((digitChars (d :: ds)).drop (k + 1)).isEmpty then ['0']
        else (digitChars (d :: ds)).drop (k + 1))) := by
  have hcanonical : Canonical d (ds.take k) := by
    refine ⟨fun e he => ?_, fun hzero => absurd hzero hd⟩
    rcases List.mem_cons.mp he with rfl | he
    · exact hlt e List.mem_cons_self
    · exact hlt e (List.mem_cons_of_mem _ (List.mem_of_mem_take he))
  have htake : (digitChars (d :: ds)).take (k + 1) = digitChars (d :: ds.take k) := by
    simp [digitChars, List.map_take]
  have hdrop : (digitChars (d :: ds)).drop (k + 1) = digitChars (ds.drop k) := by
    simp [digitChars, List.map_drop]
  rw [htake, hdrop]
  by_cases hempty : ds.drop k = []
  · rw [hempty]
    exact isFraction_point hcanonical zero_lt_ten (List.cons_ne_nil _ _)
  · have hbehind : (digitChars (ds.drop k)).isEmpty = false := by
      simpa [digitChars] using hempty
    rw [hbehind]
    exact isFraction_point hcanonical
      (fun e he => hlt e (List.mem_cons_of_mem _ (List.mem_of_mem_drop he))) hempty

/-- However digits are laid out, there is a point or an exponent. -/
theorem isFraction_write (layout : FloatLayout) {d : Nat} {ds : List Nat} (h : Canonical d ds)
    (hd : d ≠ 0) (first : Int) : IsFraction (layout.write (digitChars (d :: ds)) first) := by
  unfold FloatLayout.write
  split
  · exact isFraction_scientific h first
  · split
    · -- zeros stand between the point and the digits
      have hlt : ∀ e ∈ List.replicate (first.natAbs - 1) 0 ++ d :: ds, e < 10 := fun e he =>
        (List.mem_append.mp he).elim lt_ten_of_mem_replicate (h.lt_ten e)
      have hzeros := isFraction_point canonical_zero hlt
        (List.append_ne_nil_of_right_ne_nil _ (List.cons_ne_nil _ _))
      rw [digitChars_append, digitChars_replicate] at hzeros
      exact hzeros
    · -- zeros fill the digits up to the point
      have hpadded : ∀ k, digitChars (d :: ds) ++ List.replicate k '0'
          = digitChars (d :: (ds ++ List.replicate k 0)) := by
        intro k
        rw [← digitChars_replicate, ← digitChars_append, List.cons_append]
      dsimp only
      rw [hpadded]
      refine isFraction_around (fun e he => ?_) hd _
      rw [← List.cons_append] at he
      exact (List.mem_append.mp he).elim (h.lt_ten e) lt_ten_of_mem_replicate

theorem mantissa_pos {bits : Nat} (h : bits ≠ 0) : 0 < (binaryOfBits bits).mantissa := by
  have hpow : Nat.pow 2 52 = 4503599627370496 := rfl
  unfold binaryOfBits
  rw [hpow]
  dsimp only
  split
  · dsimp only
    omega
  · dsimp only
    omega

/-- The literal of a floating point number. -/
theorem exists_floatLiteral (negative : Bool) (bits : Nat) :
    ∃ l : Literal, l.WellFormed ∧ l.chars = floatText negative bits ∧ l.isInteger = false := by
  have hsigned : ∀ {text}, IsFraction text → ∃ l : Literal, l.WellFormed ∧
      l.chars = (if negative then ['-'] else []) ++ text ∧ l.isInteger = false := by
    rintro text ⟨l, hformed, hinteger, hnegative, rfl⟩
    refine ⟨{ l with negative }, ⟨hformed.whole, hformed.fraction, hformed.exponent⟩, ?_, hinteger⟩
    simp [Literal.chars, hnegative]
  have hzero : IsFraction ['0', '.', '0'] :=
    isFraction_point canonical_zero zero_lt_ten (List.cons_ne_nil _ _)
  unfold floatText
  refine hsigned ?_
  split
  · exact hzero
  · next hbits =>
    rcases Decimal.shortest_coefficient (mantissa_pos hbits) with hnone | hpos
    · -- were there no decimal, the text would be that of zero
      rw [hnone]
      exact hzero
    · obtain ⟨d, ds, hdigits, hcanonical, hd⟩ := Decimal.exists_significant hpos
      dsimp only
      rw [hdigits]
      exact isFraction_write floatLayout hcanonical hd _

/-- **What becomes of the text of a floating point number.** It is read as one, or it is out of range. -/
theorem outcome_floatText (x : Float) {t : Input} (ht : Stops t) :
    (∃ y, Reads number (Input.ofChars (Number.text (.float x)) ++ t) (.float y) t) ∨
      outcome (number (Input.ofChars (Number.text (.float x)) ++ t)) = .error .numberOutOfRange := by
  obtain ⟨l, hformed, hchars, hinteger⟩ :=
    exists_floatLiteral (Nat.pow 2 63 ≤ x.toBits.toNat) (x.toBits.toNat % Nat.pow 2 63)
  have hread := reads_literal hformed ht
  rw [hchars] at hread
  have hnumber : l.toNumber = l.toFloat.map .float := by
    unfold Literal.toNumber
    rw [hinteger]
    exact if_neg fun h => Bool.false_ne_true h.1
  cases hfloat : l.toFloat with
  | ok y =>
    rw [hfloat] at hnumber
    exact Or.inl ⟨y, reads_number.mpr ⟨l, hread, hnumber⟩⟩
  | error unread =>
    rw [hfloat] at hnumber
    refine Or.inr ?_
    rw [outcome_number]
    have hliteral : outcome (literal (Input.ofChars (Number.text (.float x)) ++ t)) = .ok (l, t) := hread
    rw [hliteral]
    dsimp only
    rw [hnumber]
    rfl

/-- The literal that is written for a number. -/
theorem exists_literal (n : Number) : ∃ l : Literal, l.WellFormed ∧ l.chars = n.text := by
  cases n with
  | integer n =>
    obtain ⟨l, hformed, hchars, -⟩ := exists_integerLiteral n
    exact ⟨l, hformed, hchars⟩
  | float x =>
    obtain ⟨l, hformed, hchars, -⟩ :=
      exists_floatLiteral (Nat.pow 2 63 ≤ x.toBits.toNat) (x.toBits.toNat % Nat.pow 2 63)
    exact ⟨l, hformed, hchars⟩

end SecretClient.Json
