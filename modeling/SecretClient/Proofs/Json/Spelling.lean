import SecretClient.Proofs.Json.Layout
import SecretClient.Proofs.Json.String

/-!
# The spellings of strings and numbers

The readers of tokens take the texts of the grammar and no others.

* `reads_stringTail_iff` : which texts are read as strings
* `literal_sound`, `reads_literal_of_numberText` : which texts are read as numbers
* `toNumber_eq_ok_iff` : what number a text is read as
-/

namespace SecretClient.Json

/-! ## Hexadecimal digits -/

theorem hex?_of_hexDigit {c : Char} {n : Nat} (h : HexDigit c n) : Digit.hex? c = some n := by
  have hall : ∀ n < 16, Digit.hex? (Nat.digitChar n) = some n ∧
      Digit.hex? (Nat.digitChar n).toUpper = some n := by
    decide
  obtain ⟨hn, rfl | rfl⟩ := h
  · exact (hall n hn).1
  · exact (hall n hn).2

theorem hexDigit_of_hex? {c : Char} {n : Nat} (h : Digit.hex? c = some n) : HexDigit c n := by
  have hdecimal : ∀ n < 10, Nat.digitChar n = Char.ofNat (48 + n) := by decide
  have hlower : ∀ n < 6, Nat.digitChar (10 + n) = Char.ofNat (97 + n) := by decide
  have hupper : ∀ n < 6, (Nat.digitChar (10 + n)).toUpper = Char.ofNat (65 + n) := by decide
  have hbounds : ∀ {low high : Char}, low ≤ c ∧ c ≤ high →
      low.toNat ≤ c.toNat ∧ c.toNat ≤ high.toNat := fun h => h
  unfold Digit.hex? at h
  split at h
  · next hrange =>
    cases h
    obtain ⟨hlow, hhigh⟩ : 48 ≤ c.toNat ∧ c.toNat ≤ 57 := hbounds hrange
    refine ⟨by omega, Or.inl ?_⟩
    rw [hdecimal _ (by omega), Nat.add_sub_cancel' hlow, Char.ofNat_toNat]
  · split at h
    · next hrange =>
      cases h
      obtain ⟨hlow, hhigh⟩ : 97 ≤ c.toNat ∧ c.toNat ≤ 102 := hbounds hrange
      refine ⟨by omega, Or.inl ?_⟩
      rw [show c.toNat - 87 = 10 + (c.toNat - 97) by omega, hlower _ (by omega),
        Nat.add_sub_cancel' hlow, Char.ofNat_toNat]
    · split at h
      · next hrange =>
        cases h
        obtain ⟨hlow, hhigh⟩ : 65 ≤ c.toNat ∧ c.toNat ≤ 70 := hbounds hrange
        refine ⟨by omega, Or.inr ?_⟩
        rw [show c.toNat - 55 = 10 + (c.toNat - 65) by omega, hupper _ (by omega),
          Nat.add_sub_cancel' hlow, Char.ofNat_toNat]
      · cases h

theorem hexItem?_eq_some_iff {o : Option Char} {n : Nat} :
    hexItem? o = some n ↔ ∃ c, o = some c ∧ HexDigit c n := by
  unfold hexItem?
  rw [Option.bind_eq_some_iff]
  constructor
  · rintro ⟨c, rfl, h⟩
    exact ⟨c, rfl, hexDigit_of_hex? h⟩
  · rintro ⟨c, rfl, h⟩
    exact ⟨c, rfl, hex?_of_hexDigit h⟩

/-- Four hexadecimal digits are read as their number. -/
theorem reads_fourDigits_iff {s t : Input} {n : Nat} :
    Reads fourDigits s n t ↔ ∃ text, FourHex text n ∧ s = Input.ofChars text ++ t := by
  constructor
  · intro h
    unfold Reads fourDigits at h
    split at h
    · next a b c d rest =>
      split at h
      · next m hm =>
        cases h
        unfold fourDigits? at hm
        simp only [Option.pure_def, Option.bind_eq_bind, Option.bind_eq_some_iff] at hm
        obtain ⟨i, hi, j, hj, k, hk, l, hl, hn⟩ := hm
        obtain ⟨a, rfl, ha⟩ := hexItem?_eq_some_iff.mp hi
        obtain ⟨b, rfl, hb⟩ := hexItem?_eq_some_iff.mp hj
        obtain ⟨c, rfl, hc⟩ := hexItem?_eq_some_iff.mp hk
        obtain ⟨d, rfl, hd⟩ := hexItem?_eq_some_iff.mp hl
        cases hn
        refine ⟨[a, b, c, d], ?_, rfl⟩
        have hfour := FourHex.intro ha hb hc hd
        simpa [Digit.number] using hfour
      · cases h
    · cases h
  · rintro ⟨text, h, rfl⟩
    cases h with
    | intro ha hb hc hd =>
      refine reads_fourDigits ?_ t
      unfold fourDigits?
      dsimp only
      rw [hexItem?_eq_some_iff.mpr ⟨_, rfl, ha⟩, hexItem?_eq_some_iff.mpr ⟨_, rfl, hb⟩,
        hexItem?_eq_some_iff.mpr ⟨_, rfl, hc⟩, hexItem?_eq_some_iff.mpr ⟨_, rfl, hd⟩]
      simp [Digit.number]

/-! ## Escapes -/

theorem escapeLetter?_eq_some_iff {l c : Char} : escapeLetter? l = some c ↔ LetterEscape l c := by
  constructor
  · intro h
    unfold escapeLetter? at h
    split at h
    case h_9 => cases h
    all_goals cases h; constructor
  · intro h
    cases h <;> rfl

theorem secondEscape_ok_iff {s t : Input} :
    (∃ r : Rest s, secondEscape s = .ok r ∧ r.1 = t) ↔ s = some '\\' :: some 'u' :: t := by
  unfold secondEscape
  cases s with
  | nil => simp
  | cons c s =>
    dsimp only
    by_cases hc : c = some '\\'
    · cases s with
      | nil => simp [hc]
      | cons d s =>
        by_cases hd : d = some 'u'
        · simp [hc, hd]
        · simp [hc, hd]
    · simp [hc]

theorem isLowHalf_iff {n : Nat} : isLowHalf n = true ↔ 0xDC00 ≤ n ∧ n ≤ 0xDFFF := by
  simp [isLowHalf]

theorem isHighHalf_iff {n : Nat} : isHighHalf n = true ↔ 0xD800 ≤ n ∧ n ≤ 0xDBFF := by
  simp [isHighHalf]

/-- A character is written by number with four digits, or with eight for a pair. -/
theorem reads_numberedChar_cases {s t : Input} {c : Char} :
    Reads numberedChar s c t ↔
      ∃ n r, Reads fourDigits s n r ∧
        ((n < 0xD800 ∨ 0xDFFF < n) ∧ c = Char.ofNat n ∧ t = r ∨
          (0xD800 ≤ n ∧ n ≤ 0xDBFF) ∧ ∃ m u, r = some '\\' :: some 'u' :: u ∧
            Reads fourDigits u m t ∧ (0xDC00 ≤ m ∧ m ≤ 0xDFFF) ∧ c = pairChar n m) := by
  constructor
  · intro h
    unfold Reads numberedChar at h
    cases hfour : fourDigits s with
    | error e => rw [hfour] at h; cases h
    | ok result =>
      obtain ⟨n, r⟩ := result
      rw [hfour] at h
      dsimp only at h
      refine ⟨n, r.1, reads_of_ok hfour, ?_⟩
      split at h
      · cases h
      · next hlow =>
        rw [isLowHalf_iff] at hlow
        split at h
        · next hhigh =>
          rw [isHighHalf_iff] at hhigh
          cases hsecond : secondEscape r.1 with
          | error e => rw [hsecond] at h; cases h
          | ok r' =>
            rw [hsecond] at h
            dsimp only at h
            cases hfour' : fourDigits r'.1 with
            | error e => rw [hfour'] at h; cases h
            | ok result' =>
              obtain ⟨m, r''⟩ := result'
              rw [hfour'] at h
              dsimp only at h
              split at h
              · next hlow' =>
                rw [isLowHalf_iff] at hlow'
                simp only [outcome, Except.ok.injEq, Prod.mk.injEq] at h
                obtain ⟨rfl, rfl⟩ := h
                exact Or.inr ⟨hhigh, m, r'.1, secondEscape_ok_iff.mp ⟨r', hsecond, rfl⟩,
                  reads_of_ok hfour', hlow', rfl⟩
              · cases h
        · next hhigh =>
          rw [isHighHalf_iff] at hhigh
          cases h
          exact Or.inl ⟨by omega, rfl, rfl⟩
  · rintro ⟨n, r, hfour, ⟨hn, rfl, rfl⟩ | ⟨hn, m, u, hr, hfour', hm, hc⟩⟩
    · obtain ⟨r, hok, rfl⟩ := hfour.exists_ok
      have hlow : isLowHalf n = false := Bool.eq_false_iff.mpr fun h => by
        rw [isLowHalf_iff] at h
        omega
      have hhigh : isHighHalf n = false := Bool.eq_false_iff.mpr fun h => by
        rw [isHighHalf_iff] at h
        omega
      unfold Reads numberedChar
      rw [hok]
      dsimp only
      rw [hlow, hhigh]
      rfl
    · obtain ⟨r, hok, rfl⟩ := hfour.exists_ok
      obtain ⟨u, hsecond, rfl⟩ := secondEscape_ok_iff.mpr hr
      obtain ⟨v, hok', rfl⟩ := hfour'.exists_ok
      have hlow : isLowHalf n = false := Bool.eq_false_iff.mpr fun h => by
        rw [isLowHalf_iff] at h
        omega
      rw [hc]
      unfold Reads numberedChar
      rw [hok]
      dsimp only
      rw [hlow, isHighHalf_iff.mpr hn]
      simp only [reduceIte, Bool.false_eq_true]
      rw [hsecond]
      dsimp only
      rw [hok']
      dsimp only
      rw [isLowHalf_iff.mpr hm]
      rfl

/-- **The characters that are written by number.** -/
theorem reads_numberedChar_iff {s t : Input} {c : Char} :
    Reads numberedChar s c t ↔
      ∃ text, CharText ('\\' :: 'u' :: text) c ∧ s = Input.ofChars text ++ t := by
  rw [reads_numberedChar_cases]
  constructor
  · rintro ⟨n, r, hfour, ⟨hn, rfl, rfl⟩ | ⟨hn, m, u, rfl, hfour', hm, hc⟩⟩
    · obtain ⟨digits, hdigits, rfl⟩ := reads_fourDigits_iff.mp hfour
      exact ⟨digits, .number hdigits hn, rfl⟩
    · obtain ⟨digits, hdigits, rfl⟩ := reads_fourDigits_iff.mp hfour
      obtain ⟨digits', hdigits', rfl⟩ := reads_fourDigits_iff.mp hfour'
      refine ⟨digits ++ '\\' :: 'u' :: digits', ?_, ?_⟩
      · rw [hc]
        exact .pair hdigits hn.1 hn.2 hdigits' hm.1 hm.2
      · rw [ofChars_append, ofChars_cons, ofChars_cons]
  · rintro ⟨text, h, rfl⟩
    cases h with
    | letter h => cases h
    | number hdigits hn =>
      exact ⟨_, t, reads_fourDigits_iff.mpr ⟨_, hdigits, rfl⟩, Or.inl ⟨hn, rfl, rfl⟩⟩
    | pair hdigits hhigh hhigh' hdigits' hlow hlow' =>
      refine ⟨_, _, reads_fourDigits_iff.mpr ⟨_, hdigits, ofChars_append _ _ t⟩,
        Or.inr ⟨⟨hhigh, hhigh'⟩, _, _, rfl, reads_fourDigits_iff.mpr ⟨_, hdigits', rfl⟩,
          ⟨hlow, hlow'⟩, rfl⟩⟩

/-- An escape comes out behind its backslash as what its letter says. -/
theorem outcome_escape {α : Type} (letter : Char → α) (numbered : Reader α) (o : Option Char)
    (s : Input) :
    outcome (escape letter numbered (o :: s)) =
      if o = some 'u' then outcome (numbered s)
      else match o.bind escapeLetter? with
        | some c => .ok (letter c, s)
        | none => .error .invalidEscape := by
  unfold escape
  dsimp only
  split
  · cases numbered s <;> rfl
  · cases o.bind escapeLetter? <;> rfl

/-- **An escape is read behind its backslash by its letter or by its number.** -/
theorem reads_escape_iff {α : Type} {letter : Char → α} {numbered : Reader α} {s t : Input} {a : α} :
    Reads (escape letter numbered) s a t ↔
      (∃ r, s = some 'u' :: r ∧ Reads numbered r a t) ∨
        ∃ l c, s = some l :: t ∧ LetterEscape l c ∧ a = letter c := by
  cases s with
  | nil => simp [Reads, escape, outcome]
  | cons o s =>
    unfold Reads
    rw [outcome_escape]
    constructor
    · intro h
      split at h
      · next ho => exact Or.inl ⟨s, by rw [ho], h⟩
      · split at h
        · next c hc =>
          obtain ⟨l, rfl, hl⟩ := Option.bind_eq_some_iff.mp hc
          cases h
          exact Or.inr ⟨l, c, rfl, escapeLetter?_eq_some_iff.mp hl, rfl⟩
        · cases h
    · rintro (⟨r, heq, h⟩ | ⟨l, c, heq, hl, rfl⟩)
      · cases heq
        rw [if_pos rfl]
        exact h
      · cases heq
        have hne : some l ≠ some 'u' := by
          rintro heq
          cases heq
          cases hl
        rw [if_neg hne, Option.bind_some, escapeLetter?_eq_some_iff.mpr hl]

/-! ## Strings -/

/-- What a piece of a string comes out as, by the character with which it begins. -/
theorem outcome_stringPiece {α : Type} (letter : Char → α) (numbered : Reader α)
    (broken : (s : Input) → Except Fault α) (c : Char) (s : Input) :
    outcome (stringPiece letter numbered broken (some c :: s)) =
      if c = '"' then .ok (none, s)
      else if c = '\\' then
        (outcome (escape letter numbered s)).map fun (a, t) => (some a, t)
      else if c.toNat < 0x20 then .error .controlCharacter
      else .ok (some (letter c), s) := by
  unfold stringPiece
  dsimp only
  split
  · rfl
  · split
    · cases escape letter numbered s <;> rfl
    · split <;> rfl

/-- **A piece of a string is its end or one of the spellings of a character.** -/
theorem reads_keptPiece_iff {s t : Input} {o : Option Char} :
    Reads keptPiece s o t ↔
      (o = none ∧ s = some '"' :: t) ∨
        ∃ c text, o = some c ∧ CharText text c ∧ s = Input.ofChars text ++ t := by
  constructor
  · intro h
    cases s with
    | nil => cases h
    | cons i s =>
      cases i with
      | none => cases h
      | some c =>
        unfold Reads keptPiece at h
        rw [outcome_stringPiece] at h
        split at h
        · next hc =>
          cases h
          exact Or.inl ⟨rfl, by rw [hc]⟩
        · next hquote =>
          split at h
          · next hc =>
            obtain ⟨⟨d, u⟩, hescape, heq⟩ := map_eq_ok_iff.mp h
            cases heq
            rcases reads_escape_iff.mp hescape with ⟨r, rfl, hr⟩ | ⟨l, x, rfl, hl, hd⟩
            · obtain ⟨text, htext, rfl⟩ := reads_numberedChar_iff.mp hr
              exact Or.inr ⟨d, _, rfl, htext, by rw [hc]; rfl⟩
            · exact Or.inr ⟨x, _, congrArg some hd, .letter hl, by rw [hc]; rfl⟩
          · next hbackslash =>
            split at h
            · cases h
            · next hcontrol =>
              cases h
              exact Or.inr ⟨c, [c], rfl, .plain (by omega) hquote hbackslash, rfl⟩
  · rintro (⟨rfl, rfl⟩ | ⟨c, text, rfl, h, rfl⟩)
    · rfl
    · -- behind a backslash the escape decides
      have hescape : ∀ {r}, Reads (escape id numberedChar) r c t →
          Reads keptPiece (some '\\' :: r) (some c) t := by
        intro r hr
        unfold Reads keptPiece
        rw [outcome_stringPiece, if_neg (by decide), if_pos rfl]
        exact map_eq_ok_iff.mpr ⟨(c, t), hr, rfl⟩
      cases h with
      | plain hcontrol hquote hbackslash =>
        change Reads keptPiece (some c :: t) (some c) t
        unfold Reads keptPiece
        rw [outcome_stringPiece, if_neg hquote, if_neg hbackslash, if_neg (by omega)]
        rfl
      | letter hl => exact hescape (reads_escape_iff.mpr (Or.inr ⟨_, c, rfl, hl, rfl⟩))
      | number hdigits hn =>
        exact hescape (reads_escape_iff.mpr (Or.inl ⟨_, rfl,
          reads_numberedChar_iff.mpr ⟨_, .number hdigits hn, rfl⟩⟩))
      | pair hdigits hhigh hhigh' hdigits' hlow hlow' =>
        exact hescape (reads_escape_iff.mpr (Or.inl ⟨_, rfl,
          reads_numberedChar_iff.mpr ⟨_, .pair hdigits hhigh hhigh' hdigits' hlow hlow', rfl⟩⟩))

theorem reads_pieces_keptPiece_iff {s t : Input} {cs : List Char} :
    Reads (pieces keptPiece) s cs t ↔
      ∃ text, CharsText text cs ∧ s = Input.ofChars text ++ some '"' :: t := by
  constructor
  · induction cs generalizing s with
    | nil =>
      intro h
      rcases reads_pieces.mp h with ⟨-, hend⟩ | ⟨a, rest, r, heq, -⟩
      · rcases reads_keptPiece_iff.mp hend with ⟨-, rfl⟩ | ⟨c, text, hc, -⟩
        · exact ⟨[], .nil, rfl⟩
        · cases hc
      · cases heq
    | cons c cs ih =>
      intro h
      rcases reads_pieces.mp h with ⟨heq, -⟩ | ⟨a, rest, r, heq, hpiece, hrest⟩
      · cases heq
      · cases heq
        obtain ⟨text', htext', rfl⟩ := ih hrest
        rcases reads_keptPiece_iff.mp hpiece with ⟨hc, -⟩ | ⟨d, text, hd, htext, rfl⟩
        · cases hc
        · cases hd
          exact ⟨text ++ text', .cons htext htext', by rw [ofChars_append]⟩
  · rintro ⟨text, h, rfl⟩
    induction h with
    | nil => exact reads_pieces.mpr (Or.inl ⟨rfl, rfl⟩)
    | cons htext _ ih =>
      rw [ofChars_append]
      exact reads_pieces.mpr (Or.inr ⟨_, _, _, rfl,
        reads_keptPiece_iff.mpr (Or.inr ⟨_, _, rfl, htext, rfl⟩), ih⟩)

/-- **A string is read by its spellings.** -/
theorem reads_stringTail_iff {s t : Input} {a : String} :
    Reads stringTail s a t ↔
      ∃ text, CharsText text a.toList ∧ s = Input.ofChars text ++ some '"' :: t := by
  constructor
  · intro h
    obtain ⟨cs, hcs, rfl⟩ := reads_mapValue.mp h
    rw [String.toList_ofList]
    exact reads_pieces_keptPiece_iff.mp hcs
  · intro h
    exact reads_mapValue.mpr ⟨a.toList, reads_pieces_keptPiece_iff.mpr h, String.ofList_toList⟩

/-! ## Digits -/

theorem digitItem?_eq_some_iff {o : Option Char} {d : Nat} :
    digitItem? o = some d ↔ d < 10 ∧ o = some (Nat.digitChar d) := by
  constructor
  · intro h
    obtain ⟨c, rfl, hc⟩ := Option.bind_eq_some_iff.mp h
    obtain ⟨hhex, hd⟩ := Option.filter_eq_some_iff.mp hc
    have hten : d < 10 := of_decide_eq_true hd
    refine ⟨hten, ?_⟩
    have hupper : ∀ d < 10, (Nat.digitChar d).toUpper = Nat.digitChar d := by decide
    obtain ⟨-, rfl | rfl⟩ := hexDigit_of_hex? hhex
    · rfl
    · rw [hupper d hten]
  · rintro ⟨hd, rfl⟩
    exact digitItem?_digitChar hd

/-- What stands in front of other things are digits. -/
theorem ofChars_digitsOf (s : Input) :
    s = Input.ofChars (digitChars (digitsOf s)) ++ (behindDigits s).1 ∧
      (∀ d ∈ digitsOf s, d < 10) ∧ NoDigit (behindDigits s).1 := by
  induction s with
  | nil => exact ⟨rfl, by simp [digitsOf], by simp [behindDigits, NoDigit]⟩
  | cons o s ih =>
    cases ho : digitItem? o with
    | none =>
      have hdigits : digitsOf (o :: s) = [] := by simp [digitsOf, ho]
      have hbehind : (behindDigits (o :: s)).1 = o :: s := by simp [behindDigits, ho]
      rw [hdigits, hbehind]
      refine ⟨rfl, by simp, ?_⟩
      intro c hc
      cases hc
      exact ho
    | some d =>
      obtain ⟨hs, hlt, hno⟩ := ih
      obtain ⟨hd, rfl⟩ := digitItem?_eq_some_iff.mp ho
      have hdigits : digitsOf (some (Nat.digitChar d) :: s) = d :: digitsOf s := by
        simp [digitsOf, ho]
      have hbehind : (behindDigits (some (Nat.digitChar d) :: s)).1 = (behindDigits s).1 := by
        simp [behindDigits, ho]
      rw [hdigits, hbehind]
      refine ⟨?_, ?_, hno⟩
      · exact congrArg (some (Nat.digitChar d) :: ·) hs
      · intro e he
        rcases List.mem_cons.mp he with rfl | he
        · exact hd
        · exact hlt e he

/-! ## The parts of a number -/

theorem wholePart_sound {s t : Input} {ds : List Nat} (h : Reads wholePart s ds t) :
    (∃ d rest, ds = d :: rest ∧ Digit.Canonical d rest) ∧ s = Input.ofChars (digitChars ds) ++ t := by
  unfold Reads wholePart at h
  cases s with
  | nil => cases h
  | cons o s =>
    dsimp only at h
    cases ho : digitItem? o with
    | none => rw [ho] at h; cases h
    | some d =>
      rw [ho] at h
      dsimp only at h
      split at h
      · cases h
      · next hzero =>
        cases h
        obtain ⟨hd, rfl⟩ := digitItem?_eq_some_iff.mp ho
        obtain ⟨hs, hlt, -⟩ := ofChars_digitsOf s
        refine ⟨⟨d, digitsOf s, rfl, ⟨?_, fun heq => ?_⟩⟩, congrArg (some (Nat.digitChar d) :: ·) hs⟩
        · intro e he
          rcases List.mem_cons.mp he with rfl | he
          · exact hd
          · exact hlt e he
        · by_contra hne
          exact hzero ⟨heq, hne⟩

theorem fractionPart_sound {s : Input} {ds : List Nat} {r : Tail s}
    (h : fractionPart s = .ok (ds, r)) :
    (∀ d ∈ ds, d < 10) ∧ s = Input.ofChars (Literal.fractionChars ds) ++ r.1 := by
  unfold fractionPart at h
  split at h
  · next rest =>
    obtain ⟨hs, hlt, -⟩ := ofChars_digitsOf rest
    split at h
    · cases h
    · next hne =>
      cases h
      refine ⟨hlt, ?_⟩
      cases hdigits : digitsOf rest with
      | nil => exact absurd hdigits hne
      | cons d ds =>
        rw [hdigits] at hs
        exact congrArg (some '.' :: ·) hs
  · cases h
    exact ⟨by simp, rfl⟩

/-- A sign of an exponent is passed, or there is none. -/
theorem exponentSign_cases (s : Input) :
    (exponentSign s).1 = false ∧ s = some '+' :: (exponentSign s).2.1 ∨
      (exponentSign s).1 = true ∧ s = some '-' :: (exponentSign s).2.1 ∨
      (exponentSign s).1 = false ∧ s = (exponentSign s).2.1 := by
  unfold exponentSign
  split
  · exact Or.inl ⟨rfl, rfl⟩
  · exact Or.inr (Or.inl ⟨rfl, rfl⟩)
  · exact Or.inr (Or.inr ⟨rfl, rfl⟩)

theorem exponentPart_sound {s : Input} {e : Option (Bool × List Nat)} {r : Tail s}
    (h : exponentPart s = .ok (e, r)) :
    (∀ p ∈ e, p.2 ≠ [] ∧ ∀ d ∈ p.2, d < 10) ∧
      ∃ text, ExponentText e text ∧ s = Input.ofChars text ++ r.1 := by
  unfold exponentPart at h
  cases s with
  | nil =>
    cases h
    exact ⟨by simp, [], .none, rfl⟩
  | cons c s =>
    dsimp only at h
    split at h
    · next hc =>
      obtain ⟨m, rfl, hm⟩ : ∃ m, c = some m ∧ m ∈ ['e', 'E'] := by
        rcases hc with rfl | rfl
        · exact ⟨'e', rfl, by decide⟩
        · exact ⟨'E', rfl, by decide⟩
      have hsign := exponentSign_cases s
      generalize exponentSign s = signed at h hsign
      obtain ⟨negative, t⟩ := signed
      obtain ⟨hs, hlt, -⟩ := ofChars_digitsOf t.1
      dsimp only at h hsign
      split at h
      · cases h
      · next hne =>
        cases h
        have hdigits : ∀ p ∈ some (negative, digitsOf t.1), p.2 ≠ [] ∧ ∀ d ∈ p.2, d < 10 := by
          intro p hp
          cases hp
          exact ⟨hne, hlt⟩
        refine ⟨hdigits, ?_⟩
        rcases hsign with ⟨rfl, hsign⟩ | ⟨rfl, hsign⟩ | ⟨rfl, hsign⟩
        · exact ⟨_, .plus hm, congrArg (some m :: ·) (hsign.trans (congrArg (some '+' :: ·) hs))⟩
        · exact ⟨_, .minus hm, congrArg (some m :: ·) (hsign.trans (congrArg (some '-' :: ·) hs))⟩
        · exact ⟨_, .unsigned hm, congrArg (some m :: ·) (hsign.trans hs)⟩
    · cases h
      exact ⟨by simp, [], .none, rfl⟩

theorem exponentSign_of_ne {s : Input} (hplus : ∀ r, s ≠ some '+' :: r)
    (hminus : ∀ r, s ≠ some '-' :: r) : exponentSign s = (false, Tail.all s) := by
  rcases exponentSign_cases s with ⟨-, heq⟩ | ⟨-, heq⟩ | ⟨hfalse, heq⟩
  · exact absurd heq (hplus _)
  · exact absurd heq (hminus _)
  · exact Prod.ext hfalse (Subtype.ext heq.symm)

/-- A digit is no sign. -/
theorem exponentSign_of_digit {c : Option Char} (h : (digitItem? c).isSome = true) (s : Input) :
    exponentSign (c :: s) = (false, Tail.all (c :: s)) := by
  refine exponentSign_of_ne (fun r heq => ?_) fun r heq => ?_
  · rw [(List.cons.inj heq).1] at h
    cases h
  · rw [(List.cons.inj heq).1] at h
    cases h

theorem exponentPart_of_sign {m : Char} (hm : m ∈ ['e', 'E']) {s : Input} {negative : Bool}
    {r : Tail s} (hsign : exponentSign s = (negative, r)) {ds : List Nat} (hne : ds ≠ [])
    (hlt : ∀ d ∈ ds, d < 10) {t : Input} (ht : NoDigit t)
    (hr : r.1 = Input.ofChars (digitChars ds) ++ t) :
    ∃ u : Tail (some m :: s), exponentPart (some m :: s) = .ok (some (negative, ds), u) ∧
      u.1 = t := by
  obtain ⟨hdigits, hbehind⟩ := digitsOf_digitChars hlt ht
  have hmark : some m = some 'e' ∨ some m = some 'E' := by
    simpa using hm
  obtain ⟨d, ds, rfl⟩ := List.exists_cons_of_ne_nil hne
  unfold exponentPart
  dsimp only
  rw [if_pos hmark, hsign]
  dsimp only
  rw [← hr] at hdigits hbehind
  split
  · next hnil =>
    rw [hdigits] at hnil
    cases hnil
  · refine ⟨⟨(behindDigits r.1).1, Nat.le_succ_of_le (Nat.le_trans (behindDigits r.1).2 r.2)⟩,
      ?_, hbehind⟩
    rw [hdigits]

/-- **An exponent is read in each of its spellings.** -/
theorem exponentPart_exponentText {e : Option (Bool × List Nat)} {text : List Char}
    (h : ExponentText e text) (hformed : ∀ p ∈ e, p.2 ≠ [] ∧ ∀ d ∈ p.2, d < 10) {t : Input}
    (ht : Stops t) :
    ∃ r, exponentPart (Input.ofChars text ++ t) = .ok (e, r) ∧ r.1 = t := by
  cases h with
  | none => exact @exponentPart_exponentChars none hformed t ht
  | @unsigned ds m hm =>
    obtain ⟨hne, hlt⟩ := hformed _ rfl
    obtain ⟨d, ds, rfl⟩ := List.exists_cons_of_ne_nil hne
    have hd := digitItem?_digitChar (hlt d List.mem_cons_self)
    exact exponentPart_of_sign hm (exponentSign_of_digit (by rw [hd]; rfl) _) hne hlt ht.noDigit rfl
  | @plus ds m hm =>
    obtain ⟨hne, hlt⟩ := hformed _ rfl
    exact exponentPart_of_sign (s := some '+' :: (Input.ofChars (digitChars ds) ++ t)) hm rfl hne hlt
      ht.noDigit rfl
  | @minus ds m hm =>
    obtain ⟨hne, hlt⟩ := hformed _ rfl
    exact exponentPart_of_sign (s := some '-' :: (Input.ofChars (digitChars ds) ++ t)) hm rfl hne hlt
      ht.noDigit rfl

/-! ## Numbers -/

theorem unsignedLiteral_sound {negative : Bool} {s t : Input} {l : Literal}
    (h : Reads (unsignedLiteral negative) s l t) :
    l.negative = negative ∧ l.WellFormed ∧ ∃ exponent, ExponentText l.exponent exponent ∧
      s = Input.ofChars (digitChars l.whole ++ (Literal.fractionChars l.fraction ++ exponent)) ++ t := by
  unfold Reads unsignedLiteral at h
  cases hwhole : wholePart s with
  | error e => rw [hwhole] at h; cases h
  | ok result =>
    obtain ⟨whole, r⟩ := result
    rw [hwhole] at h
    dsimp only at h
    obtain ⟨hcanonical, hs⟩ := wholePart_sound (reads_of_ok hwhole)
    cases hfraction : fractionPart r.1 with
    | error e => rw [hfraction] at h; cases h
    | ok result' =>
      obtain ⟨fraction, r'⟩ := result'
      rw [hfraction] at h
      dsimp only at h
      obtain ⟨hlt, hr⟩ := fractionPart_sound hfraction
      cases hexponent : exponentPart r'.1 with
      | error e => rw [hexponent] at h; cases h
      | ok result'' =>
        obtain ⟨exponent, r''⟩ := result''
        rw [hexponent] at h
        cases h
        obtain ⟨hformed, text, htext, hr'⟩ := exponentPart_sound hexponent
        refine ⟨rfl, ⟨hcanonical, hlt, hformed⟩, text, htext, ?_⟩
        rw [ofChars_append, ofChars_append]
        exact hs.trans (congrArg _ (hr.trans (congrArg _ hr')))

theorem literal_sound {s t : Input} {l : Literal} (h : Reads literal s l t) :
    ∃ text, NumberText l text ∧ s = Input.ofChars text ++ t := by
  unfold Reads literal at h
  cases s with
  | nil => cases h
  | cons c s =>
    dsimp only at h
    split at h
    · next hc =>
      cases hunsigned : unsignedLiteral true s with
      | error e => rw [hunsigned] at h; cases h
      | ok result =>
        rw [hunsigned] at h
        cases h
        obtain ⟨hnegative, hformed, exponent, htext, hs⟩ :=
          unsignedLiteral_sound (reads_of_ok hunsigned)
        refine ⟨_, .intro hformed htext, ?_⟩
        rw [hnegative, hc]
        exact congrArg (some '-' :: ·) hs
    · obtain ⟨hnegative, hformed, exponent, htext, hs⟩ := unsignedLiteral_sound h
      refine ⟨_, .intro hformed htext, ?_⟩
      rw [hnegative]
      exact hs

theorem stops_exponentText {e : Option (Bool × List Nat)} {text : List Char}
    (h : ExponentText e text) {t : Input} (ht : Stops t) :
    NoDigit (Input.ofChars text ++ t) ∧ ∀ c ∈ (Input.ofChars text ++ t).head?, c ≠ some '.' := by
  have hmark : ∀ m ∈ ['e', 'E'], digitItem? (some m) = none ∧ some m ≠ some '.' := by
    intro m hm
    simp only [List.mem_cons, List.not_mem_nil, or_false] at hm
    rcases hm with rfl | rfl
    all_goals exact ⟨rfl, by decide⟩
  have hcons : ∀ {m : Char} {rest : Input}, m ∈ ['e', 'E'] →
      NoDigit (some m :: rest) ∧ ∀ c ∈ (some m :: rest).head?, c ≠ some '.' := by
    intro m rest hm
    constructor
    · intro c hc
      cases hc
      exact (hmark m hm).1
    · intro c hc
      cases hc
      exact (hmark m hm).2
  cases h with
  | none => exact ⟨ht.noDigit, fun c hc => (ht c hc).2.1⟩
  | unsigned hm => exact hcons hm
  | plus hm => exact hcons hm
  | minus hm => exact hcons hm

/-- **A literal is read in each of its spellings.** -/
theorem reads_literal_of_numberText {l : Literal} {text : List Char} (h : NumberText l text)
    {t : Input} (ht : Stops t) : Reads literal (Input.ofChars text ++ t) l t := by
  obtain ⟨hformed, hexponent⟩ := h
  obtain ⟨negative, whole, fraction, exponent⟩ := l
  obtain ⟨⟨d, ds, rfl, hcanonical⟩, hfraction, hdigits⟩ := hformed
  obtain ⟨hdigit, hpoint⟩ := stops_exponentText hexponent ht
  have hread : Reads (unsignedLiteral negative) _ ⟨negative, d :: ds, fraction, exponent⟩ t :=
    reads_unsignedLiteral (reads_wholePart hcanonical (noDigit_fractionChars fraction hdigit))
      (fractionPart_fractionChars hfraction hdigit hpoint)
      (exponentPart_exponentText hexponent hdigits ht)
  rw [ofChars_append, ofChars_append, ofChars_append]
  cases negative with
  | true => exact reads_literal_minus hread
  | false =>
    exact reads_literal_digit (digitChar_ne_minus (hcanonical.lt_ten d List.mem_cons_self)) hread

/-- The conversion of literals to floating point numbers; none for those that are out of range. -/
def Literal.float? (l : Literal) : Option Float := l.toFloat.toOption

theorem number_eq_zero {ds : List Nat} : Digit.number 10 ds = 0 ↔ ∀ d ∈ ds, d = 0 := by
  induction ds using List.reverseRecOn with
  | nil => simp [Digit.number]
  | append_singleton ds d ih =>
    rw [Digit.number_append]
    constructor
    · intro h e he
      rcases List.mem_append.mp he with he | he
      · exact ih.mp (by omega) e he
      · rw [List.mem_singleton.mp he]
        omega
    · intro h
      have hds := ih.mpr fun e he => h e (List.mem_append_left _ he)
      have hd := h d (List.mem_append_right _ (List.mem_singleton_self d))
      omega

/-- Only a zero alone writes zero. -/
theorem isNegativeZero_iff {l : Literal} (h : l.WellFormed) :
    l.isNegativeZero = true ↔ l.negative = true ∧ l.whole = [0] := by
  obtain ⟨d, ds, hwhole, hcanonical⟩ := h.whole
  unfold Literal.isNegativeZero
  rw [Bool.and_eq_true, beq_iff_eq, number_eq_zero, hwhole]
  constructor
  · rintro ⟨hnegative, hzero⟩
    have hd := hzero d List.mem_cons_self
    exact ⟨hnegative, by rw [hd, hcanonical.alone hd]⟩
  · rintro ⟨hnegative, heq⟩
    refine ⟨hnegative, fun e he => ?_⟩
    rw [heq] at he
    exact List.mem_singleton.mp he

theorem isInteger_iff {l : Literal} : l.isInteger = true ↔ l.fraction = [] ∧ l.exponent = none := by
  simp [Literal.isInteger]

/-- A negative zero is converted exactly. -/
theorem toFloat_negativeZero : Literal.toFloat ⟨true, [0], [], none⟩ = .ok (-0.0) := rfl

theorem toFloat_map_eq_ok_iff {l : Literal} {n : Number} :
    l.toFloat.map Number.float = .ok n ↔ ∃ x, l.float? = some x ∧ n = .float x := by
  unfold Literal.float?
  cases l.toFloat <;> simp [Except.map, Except.toOption, eq_comm]

/-- **A literal has the number that it denotes.** -/
theorem toNumber_eq_ok_iff {l : Literal} (h : l.WellFormed) {n : Number} :
    l.toNumber = .ok n ↔ l.Denotes Literal.float? n := by
  have hmin : minInteger = -2 ^ 63 := by decide
  have hmax : maxInteger = 2 ^ 64 - 1 := by decide
  unfold Literal.toNumber
  split
  · next hinteger =>
    obtain ⟨hint, hzero, hlow, hhigh⟩ := hinteger
    obtain ⟨hfraction, hexponent⟩ := isInteger_iff.mp hint
    have hnegative : ¬ (l.negative = true ∧ l.whole = [0]) := by
      rw [← isNegativeZero_iff h, hzero]
      exact Bool.false_ne_true
    constructor
    · intro heq
      cases heq
      exact .integer hfraction hexponent hnegative (by omega) (by omega)
    · intro hn
      cases hn with
      | integer => rfl
      | negativeZero heq =>
        rw [heq] at hnegative
        exact absurd ⟨rfl, rfl⟩ hnegative
      | float hout =>
        rcases hout with hne | hne | hlt | hlt
        · exact absurd hfraction hne
        · exact absurd hexponent hne
        · omega
        · omega
  · next hinteger =>
    rw [toFloat_map_eq_ok_iff]
    constructor
    · rintro ⟨x, hx, rfl⟩
      by_cases hzero : l = ⟨true, [0], [], none⟩
      · have hfloat : l.float? = some (-0.0) := by
          unfold Literal.float?
          rw [hzero, toFloat_negativeZero]
          rfl
        rw [hfloat] at hx
        cases hx
        exact .negativeZero hzero
      · refine .float ?_ hx
        by_contra hout
        simp only [not_or, not_not, not_lt, not_le] at hout
        obtain ⟨hfraction, hexponent, hlow, hhigh⟩ := hout
        refine hinteger ⟨isInteger_iff.mpr ⟨hfraction, hexponent⟩, ?_, by omega, by omega⟩
        rw [Bool.eq_false_iff, Ne, isNegativeZero_iff h]
        rintro ⟨hnegative, hwhole⟩
        obtain ⟨negative, whole, fraction, exponent⟩ := l
        dsimp only at *
        subst hnegative hwhole hfraction hexponent
        exact hzero rfl
    · intro hn
      cases hn with
      | integer hfraction hexponent hnegative hlow hhigh =>
        refine absurd ⟨isInteger_iff.mpr ⟨hfraction, hexponent⟩, ?_, by omega, by omega⟩ hinteger
        rw [Bool.eq_false_iff, Ne, isNegativeZero_iff h]
        exact hnegative
      | negativeZero heq =>
        refine ⟨-0.0, ?_, rfl⟩
        unfold Literal.float?
        rw [heq, toFloat_negativeZero]
        rfl
      | float hout hx => exact ⟨_, hx, rfl⟩

end SecretClient.Json
