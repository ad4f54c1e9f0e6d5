import SecretClient.Proofs.Json.Place

/-!
# Integers in a text

An integer is written as its digits and perhaps a minus in front. Each integer has one such text, zero
a second one with a minus. A value holds the integers from -2⁶³ to 2⁶⁴-1, and these are written as they
were read. In the place of any other, and of `-0`, stands a floating point number, whose text is none
of an integer.

* `text_of_integerText` : an integer is written as it was read
* `denotes_integer_iff` : which texts denote an integer
* `isMarked_floatText`, `IntegerText.not_isMarked` : what tells other numbers from integers
-/

namespace SecretClient.Json

open Digit (Canonical)

/-! ## The texts of integers -/

/-- The texts of an integer: perhaps a minus, and digits without a zero in front of others. -/
inductive IntegerText : List Char → Int → Prop
  | plain {d : Nat} {ds : List Nat} : Canonical d ds →
      IntegerText (digitChars (d :: ds)) (Digit.number 10 (d :: ds))
  | minus {d : Nat} {ds : List Nat} : Canonical d ds →
      IntegerText ('-' :: digitChars (d :: ds)) (-Digit.number 10 (d :: ds))

/-- The text is written as an integer of 64 bits, with or without a sign: it is no negative zero, and
its number is in range. -/
structure IsExact (text : List Char) (n : Int) : Prop where
  ne_negativeZero : text ≠ ['-', '0']
  lower : -2 ^ 63 ≤ n
  upper : n ≤ 2 ^ 64 - 1

/-- The text writes a natural number of 64 bits. -/
def NaturalText (text : List Char) (n : Nat) : Prop := IntegerText text n ∧ IsExact text n

/-- The text shows that it is no integer: it has a point or an exponent. -/
def IsMarked (text : List Char) : Prop :=
  (∃ l, NumberText l text) ∧ ('.' ∈ text ∨ 'e' ∈ text)

variable {text : List Char} {n : Int} {l : Literal}

theorem numberText_of_digits (negative : Bool) {d : Nat} {ds : List Nat} (h : Canonical d ds) :
    NumberText ⟨negative, d :: ds, [], none⟩
      ((if negative then ['-'] else []) ++ digitChars (d :: ds)) := by
  have htext : NumberText ⟨negative, d :: ds, [], none⟩ _ :=
    .intro ⟨⟨d, ds, rfl, h⟩, List.forall_mem_nil _, fun _ he => by cases he⟩ .none
  simpa [Literal.fractionChars] using htext

/-- The literals without point and exponent are those of the integers. -/
theorem integerText_iff :
    IntegerText text n ↔ ∃ l, NumberText l text ∧ l.isInteger = true ∧ l.toInt = n := by
  constructor
  · rintro (h | h)
    · exact ⟨_, numberText_of_digits false h, rfl, rfl⟩
    · exact ⟨_, numberText_of_digits true h, rfl, rfl⟩
  · rintro ⟨⟨negative, whole, fraction, exponent⟩, ⟨⟨⟨d, ds, rfl, h⟩, -, -⟩, hexponent⟩, hint, rfl⟩
    obtain ⟨rfl, rfl⟩ := isInteger_iff.mp hint
    cases hexponent
    cases negative with
    | false => simpa [Literal.fractionChars, Literal.toInt] using IntegerText.plain h
    | true => simpa [Literal.fractionChars, Literal.toInt] using IntegerText.minus h

/-- A text writes one literal at most. -/
theorem NumberText.unique {m : Literal} (h : NumberText l text) (h' : NumberText m text) : l = m :=
  ((reads_literal_of_numberText h stops_nil).unique (reads_literal_of_numberText h' stops_nil)).1

/-! ## Writing an integer -/

/-- **A number is written with the digits that write it**, if there is no zero in front of them. -/
theorem text_number {d : Nat} {ds : List Nat} (h : Canonical d ds) :
    Digit.text 10 (Digit.number 10 (d :: ds)) = digitChars (d :: ds) := by
  induction ds using List.reverseRecOn with
  | nil =>
    have hnumber : Digit.number 10 [d] = d := by simp [Digit.number]
    rw [hnumber]
    exact Nat.toDigits_of_lt_base (h.lt_ten d List.mem_cons_self)
  | append_singleton ds e ih =>
    have hd : d ≠ 0 := fun hzero => by simpa using h.alone hzero
    have he : e < 10 := h.lt_ten e (by simp)
    have hfront : Canonical d ds :=
      ⟨fun c hc => h.lt_ten c (List.mem_append_left [e] hc), fun hzero => absurd hzero hd⟩
    have hpos : Digit.number 10 (d :: ds) ≠ 0 := fun hzero =>
      hd (number_eq_zero.mp hzero d List.mem_cons_self)
    have hlast := Nat.toDigits_append_toDigits (b := 10) (n := Digit.number 10 (d :: ds)) (d := e)
      (by decide) (Nat.pos_of_ne_zero hpos) he
    rw [Nat.toDigits_of_lt_base he] at hlast
    rw [← List.cons_append, Digit.number_append, digitChars_append, ← ih hfront, Nat.mul_comm]
    exact hlast.symm

theorem eq_negativeZero_iff (h : NumberText l text) :
    text = ['-', '0'] ↔ l = ⟨true, [0], [], none⟩ := by
  have hzero : NumberText ⟨true, [0], [], none⟩ ['-', '0'] := numberText_of_digits true canonical_zero
  constructor
  · rintro rfl
    exact h.unique hzero
  · rintro rfl
    obtain ⟨-, hexponent⟩ := h
    cases hexponent
    rfl

/-- **An integer is written as it was read**, unless it was a negative zero. -/
theorem text_of_integerText (h : IntegerText text n) (hzero : text ≠ ['-', '0']) :
    (Number.integer n).text = text := by
  cases h with
  | plain h => simp [Number.text, text_number h]
  | @minus d ds h =>
    have hpos : 0 < Digit.number 10 (d :: ds) := by
      refine Nat.pos_of_ne_zero fun heq => hzero ?_
      have hd : d = 0 := number_eq_zero.mp heq d List.mem_cons_self
      rw [hd, h.alone hd]
      rfl
    simp [Number.text, text_number h, hpos]

/-! ## What is denoted by an integer -/

section

variable {g : Grammar} {d : Nat} {v : Value}

/-- The text of a number denotes that number and nothing else. -/
theorem exists_number (htext : NumberText l text) (h : g.Denotes d text v) :
    ∃ m, v = .number m ∧ g.number l m := by
  obtain ⟨c, r, rfl, hbegins⟩ := htext.begins
  have hne : ∀ {b}, b ∈ punctuation → c ≠ b := fun hb heq =>
    ne_of_beginsNumber hbegins hb (congrArg some heq)
  have hscalar : g.Scalar (c :: r) v := by
    cases d with
    | zero => exact h
    | succ d =>
      rcases h with h | h
      · exact h
      · obtain ⟨b, s, heq, hb⟩ := h.opens
        cases heq
        rcases hb with hb | hb
        · exact absurd hb (hne (by decide))
        · exact absurd hb (hne (by decide))
  generalize heq : c :: r = other at hscalar
  cases hscalar with
  | null => exact absurd (List.cons.inj heq).1 (hne (by decide))
  | true => exact absurd (List.cons.inj heq).1 (hne (by decide))
  | false => exact absurd (List.cons.inj heq).1 (hne (by decide))
  | number hother hm =>
    subst heq
    cases htext.unique hother
    exact ⟨_, rfl, hm⟩
  | string hother =>
    cases hother
    exact absurd (List.cons.inj heq).1 (hne (by decide))

theorem exists_literal_of_denotes {m : Number} (h : g.Denotes d text (.number m)) :
    ∃ l, NumberText l text ∧ g.number l m := by
  have hscalar : g.Scalar text (.number m) := by
    cases d with
    | zero => exact h
    | succ d =>
      rcases h with h | h
      · exact h
      · cases h
  cases hscalar with
  | number htext hm => exact ⟨_, htext, hm⟩

/-- **The texts that denote an integer** are those of the integer, if it is in range. -/
theorem denotes_integer_iff :
    (Grammar.json Literal.float?).Denotes d text (.number (.integer n)) ↔
      IntegerText text n ∧ IsExact text n := by
  constructor
  · intro h
    obtain ⟨l, htext, hn⟩ := exists_literal_of_denotes h
    cases hn with
    | integer hfraction hexponent hzero hlow hhigh =>
      refine ⟨integerText_iff.mpr ⟨l, htext, isInteger_iff.mpr ⟨hfraction, hexponent⟩, rfl⟩,
        fun heq => hzero ?_, hlow, by omega⟩
      rw [(eq_negativeZero_iff htext).mp heq]
      exact ⟨rfl, rfl⟩
  · rintro ⟨h, hne, hlow, hhigh⟩
    obtain ⟨⟨negative, whole, fraction, exponent⟩, htext, hint, rfl⟩ := integerText_iff.mp h
    obtain ⟨rfl, rfl⟩ := isInteger_iff.mp hint
    have hzero : ¬ (negative = true ∧ whole = [0]) := by
      rintro ⟨rfl, rfl⟩
      exact hne ((eq_negativeZero_iff htext).mpr rfl)
    have hn : Literal.Denotes Literal.float? ⟨negative, whole, [], none⟩ (.integer _) :=
      .integer rfl rfl hzero hlow (by omega)
    exact (Grammar.Scalar.number htext hn).denotes d

theorem IntegerText.unique {m : Int} (h : IntegerText text n) (h' : IntegerText text m) : n = m := by
  obtain ⟨l, htext, -, rfl⟩ := integerText_iff.mp h
  obtain ⟨l', htext', -, rfl⟩ := integerText_iff.mp h'
  rw [htext.unique htext']

/-- **In the place of any other integer stands a floating point number.** -/
theorem exists_float_of_integerText (h : IntegerText text n) (hout : ¬ IsExact text n)
    (hv : (Grammar.json Literal.float?).Denotes d text v) : ∃ x, v = .number (.float x) := by
  obtain ⟨l, htext, -, -⟩ := integerText_iff.mp h
  obtain ⟨m, rfl, -⟩ := exists_number htext hv
  cases m with
  | integer k =>
    obtain ⟨hk, hexact⟩ := denotes_integer_iff.mp hv
    rw [← h.unique hk] at hexact
    exact absurd hexact hout
  | float x => exact ⟨x, rfl⟩

end

/-! ## What shows that a number is no integer -/

/-- **Floating point numbers are marked.** -/
theorem isMarked_floatText (x : Float) : IsMarked (Number.float x).text := by
  obtain ⟨l, hformed, hchars, hint⟩ :=
    exists_floatLiteral (Nat.pow 2 63 ≤ x.toBits.toNat) (x.toBits.toNat % Nat.pow 2 63)
  change l.chars = (Number.float x).text at hchars
  rw [← hchars]
  refine ⟨⟨l, numberText_chars hformed⟩, ?_⟩
  cases hfraction : l.fraction with
  | cons d ds => simp [Literal.chars, Literal.fractionChars, hfraction]
  | nil =>
    cases hexponent : l.exponent with
    | none => simp [Literal.isInteger, hfraction, hexponent] at hint
    | some e => simp [Literal.chars, Literal.exponentChars, hexponent]

/-- **Integers are not marked.** -/
theorem IntegerText.not_isMarked (h : IntegerText text n) : ¬ IsMarked text := by
  have hdigits : ∀ {ds : List Nat}, (∀ d ∈ ds, d < 10) → ∀ c ∈ digitChars ds, c ≠ '.' ∧ c ≠ 'e' := by
    have hall : ∀ d < 10, Nat.digitChar d ≠ '.' ∧ Nat.digitChar d ≠ 'e' := by decide
    intro ds hlt c hc
    obtain ⟨d, hd, rfl⟩ := List.mem_map.mp hc
    exact hall d (hlt d hd)
  have hplain : ∀ c ∈ text, c ≠ '.' ∧ c ≠ 'e' := by
    cases h with
    | plain h => exact hdigits h.lt_ten
    | minus h =>
      intro c hc
      rcases List.mem_cons.mp hc with rfl | hc
      · decide
      · exact hdigits h.lt_ten c hc
  rintro ⟨-, hpoint | hexponent⟩
  · exact (hplain _ hpoint).1 rfl
  · exact (hplain _ hexponent).2 rfl

/-! ## Integers at their places -/

section

variable {d e : Nat} {place : Place} {v w : Value}

/-- **An integer is written as it was read if it is in range, and else as a number that is marked.** -/
theorem at_integerText (hfits : v.Fits d) (hw : v.at? place = some w) (h : IntegerText text n)
    (hdenotes : (Grammar.json Literal.float?).Denotes e text w) :
    (Grammar.compact.At d v.chars place text ↔ IsExact text n) ∧
      (¬ IsExact text n → ∃ other, Grammar.compact.At d v.chars place other ∧ IsMarked other) := by
  have hchars := at_chars hfits hw
  have hgap : ∀ {text}, Grammar.compact.gap text → Grammar.Blanks text := by
    rintro text rfl
    exact List.forall_mem_nil _
  have hmarked : ¬ IsExact text n → IsMarked w.chars := by
    intro hout
    obtain ⟨x, rfl⟩ := exists_float_of_integerText h hout hdenotes
    exact isMarked_floatText x
  refine ⟨⟨fun hat => ?_, fun hexact => ?_⟩, fun hout => ⟨_, hchars, hmarked hout⟩⟩
  · by_contra hout
    rw [← hat.unique hgap hchars] at hmarked
    exact h.not_isMarked (hmarked hout)
  · cases json_denotes_unique hdenotes (denotes_integer_iff.mpr ⟨h, hexact⟩)
    rwa [Value.chars, text_of_integerText h hexact.ne_negativeZero] at hchars

/-- **The texts that denote a list of natural numbers.** -/
theorem denotes_naturals_iff {inner : List Char} {ns : List Nat} :
    (Grammar.json Literal.float?).Denotes (d + 1) ('[' :: inner ++ [']'])
        (.array (ns.map fun n : Nat => .number (.integer n))) ↔
      (Grammar.json Literal.float?).Listed NaturalText inner ns := by
  constructor
  · intro h
    obtain ⟨vs, heq, hlisted⟩ := h.exists_array
    cases heq
    exact hlisted.of_map denotes_integer_iff.mp
  · intro h
    have hitem : ∀ {text} {n : Nat}, NaturalText text n →
        ∃ v, (Grammar.json Literal.float?).Denotes d text v ∧ v = .number (.integer n) :=
      fun hn => ⟨_, denotes_integer_iff.mpr hn, rfl⟩
    obtain ⟨vs, hvs, hall⟩ := h.lift hitem
    have heq : vs = ns.map fun n : Nat => .number (.integer n) := by
      rw [← List.forall₂_eq_eq_eq, List.forall₂_map_right_iff]
      exact hall
    rw [← heq]
    exact Or.inr (.array hvs)

end

end SecretClient.Json
