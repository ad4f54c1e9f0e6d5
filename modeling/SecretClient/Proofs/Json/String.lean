import SecretClient.Proofs.Json.Reads

/-!
# Strings, written and read back

Each character has an escape or stands for itself, and is read back on its own; so a string is, whatever
stands behind its closing quote.

* `reads_escapedChar` : a character is read back
* `reads_stringText` : a string is read back
-/

namespace SecretClient.Json

/-! ## Characters -/

/-- A hexadecimal digit is read back. -/
theorem hexItem?_digitChar {d : Nat} (h : d < 16) : hexItem? (some (Nat.digitChar d)) = some d := by
  have hall : ∀ d < 16, hexItem? (some (Nat.digitChar d)) = some d := by decide
  exact hall d h

theorem reads_fourDigits {a b c d : Option Char} {n : Nat} (h : fourDigits? [a, b, c, d] = some n)
    (t : Input) : Reads fourDigits (a :: b :: c :: d :: t) n t := by
  unfold Reads fourDigits
  dsimp only
  rw [h]
  rfl

/-- Four digits that are no half of a pair write the character with their number. -/
theorem reads_numberedChar {s t : Input} {n : Nat} (h : Reads fourDigits s n t) (hn : n < 0xD800) :
    Reads numberedChar s (Char.ofNat n) t := by
  obtain ⟨r, hr, rfl⟩ := h.exists_ok
  have hlow : isLowHalf n = false := by
    unfold isLowHalf
    rw [decide_eq_false (by omega), Bool.false_and]
  have hhigh : isHighHalf n = false := by
    unfold isHighHalf
    rw [decide_eq_false (by omega), Bool.false_and]
  unfold Reads numberedChar
  rw [hr]
  dsimp only
  rw [hlow, hhigh]
  rfl

theorem reads_keptPiece_numbered {s t : Input} {c : Char} (h : Reads numberedChar s c t) :
    Reads keptPiece (some '\\' :: some 'u' :: s) (some c) t := by
  obtain ⟨r, hr, rfl⟩ := h.exists_ok
  unfold Reads keptPiece stringPiece escape
  simp only [reduceIte, Char.reduceEq]
  rw [hr]
  rfl

/-- The four digits of a control character. -/
theorem fourDigits?_control {c : Char} (h : c.toNat < 0x20) :
    fourDigits? [some '0', some '0', some (Nat.digitChar (c.toNat / 16)),
      some (Nat.digitChar (c.toNat % 16))] = some c.toNat := by
  have hzero : hexItem? (some '0') = some 0 := rfl
  have hnumber : Digit.number 16 [0, 0, c.toNat / 16, c.toNat % 16] = c.toNat := by
    simp only [Digit.number, List.foldl_cons, List.foldl_nil]
    omega
  unfold fourDigits?
  dsimp only
  rw [hzero, hexItem?_digitChar (by omega), hexItem?_digitChar (by omega)]
  exact congrArg some hnumber

/-- **A character is read back from its escape.** -/
theorem reads_escapedChar (c : Char) (t : Input) :
    Reads keptPiece (.ofChars (escapedChar c) ++ t) (some c) t := by
  unfold escapedChar
  split
  · rfl
  · rfl
  · rfl
  · rfl
  · rfl
  · rfl
  · rfl
  · next hquote hbackslash _ _ _ _ _ =>
    split
    · next hcontrol =>
      have hread := reads_keptPiece_numbered
        (reads_numberedChar (reads_fourDigits (fourDigits?_control hcontrol) t) (by omega))
      rw [Char.ofNat_toNat] at hread
      exact hread
    · next hplain =>
      change Reads keptPiece (some c :: t) (some c) t
      unfold Reads keptPiece stringPiece
      dsimp only
      rw [if_neg hquote, if_neg hbackslash, if_neg hplain]
      rfl

/-! ## Strings -/

theorem reads_escapedChars (cs : List Char) (t : Input) :
    Reads (pieces keptPiece) (.ofChars (cs.flatMap escapedChar) ++ some '"' :: t) cs t := by
  induction cs with
  | nil => exact reads_pieces.mpr (Or.inl ⟨rfl, rfl⟩)
  | cons c cs ih =>
    refine reads_pieces.mpr (Or.inr ⟨c, cs, _, rfl, ?_, ih⟩)
    rw [List.flatMap_cons, Input.ofChars, List.map_append, List.append_assoc]
    exact reads_escapedChar c _

theorem reads_stringTail (s : String) (t : Input) :
    Reads stringTail (.ofChars (s.toList.flatMap escapedChar) ++ some '"' :: t) s t :=
  reads_mapValue.mpr ⟨s.toList, reads_escapedChars _ t, String.ofList_toList⟩

theorem reads_string {c : Option Char} {s t : Input} {a : String} :
    Reads string (c :: s) a t ↔ Reads stringTail s a t := by
  unfold Reads string
  dsimp only
  cases stringTail s <;> rfl

theorem ofChars_stringText (s : String) (t : Input) :
    Input.ofChars (stringText s) ++ t
      = some '"' :: (Input.ofChars (s.toList.flatMap escapedChar) ++ some '"' :: t) := by
  simp [Input.ofChars, stringText]

/-- **A string is read back.** -/
theorem reads_stringText (s : String) (t : Input) :
    Reads string (.ofChars (stringText s) ++ t) s t := by
  rw [ofChars_stringText]
  exact reads_string.mpr (reads_stringTail s t)

end SecretClient.Json
