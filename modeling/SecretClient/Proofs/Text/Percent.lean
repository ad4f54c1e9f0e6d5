import SecretClient.Proofs.Text.Utf8
import SecretClient.Text.Percent

/-!
# Percent-encoded texts

* `mem_encode` : an encoded text is made of characters outside the set, percent signs and digits
* `encode_eq_self` : a text without characters of the set is written as it is
* `decode_of_plain` : a text without percent signs is read as it is
-/

namespace SecretClient.Percent

variable {set : Char → Bool} {text : List Char}

/-- The characters that bytes are written with. -/
def escapes : List Char :=
  ['%', '0', '1', '2', '3', '4', '5', '6', '7', '8', '9', 'A', 'B', 'C', 'D', 'E', 'F']

theorem upperHex_mem_escapes {n : Nat} (h : n < 16) : Digit.upperHex n ∈ escapes := by
  have hall : ∀ m < 16, Digit.upperHex m ∈ escapes := by decide
  exact hall n h

theorem mem_escapes_of_mem_byte {b : UInt8} : ∀ c ∈ byte b, c ∈ escapes := by
  have hb := b.toNat_lt
  intro c hc
  simp only [byte, List.mem_cons, List.not_mem_nil, or_false] at hc
  rcases hc with rfl | rfl | rfl
  · decide
  · exact upperHex_mem_escapes (by omega)
  · exact upperHex_mem_escapes (by omega)

/-- **An encoded text is made of characters outside the set, percent signs and digits.** -/
theorem mem_encode {c : Char} (h : c ∈ encode set text) :
    (c ∈ text ∧ set c = false) ∨ c ∈ escapes := by
  obtain ⟨d, hd, hc⟩ := List.mem_flatMap.mp h
  unfold char at hc
  split at hc
  · obtain ⟨b, -, hc⟩ := List.mem_flatMap.mp hc
    exact Or.inr (mem_escapes_of_mem_byte c hc)
  · next hset =>
    rw [List.mem_singleton.mp hc]
    exact Or.inl ⟨hd, Bool.eq_false_iff.mpr hset⟩

/-- An encoded text has no characters of the set, if no percent sign and no digit is one. -/
theorem not_mem_of_mem_encode (hset : ∀ c ∈ escapes, set c = false) :
    ∀ c ∈ encode set text, set c = false := by
  intro c hc
  rcases mem_encode hc with hc | hc
  · exact hc.2
  · exact hset c hc

theorem encode_cons (c : Char) (text : List Char) :
    encode set (c :: text) = char set c ++ encode set text := List.flatMap_cons

theorem encode_append (text rest : List Char) :
    encode set (text ++ rest) = encode set text ++ encode set rest := List.flatMap_append

theorem char_of_not_mem {c : Char} (h : set c = false) : char set c = [c] := by
  rw [char, if_neg (by rw [h]; exact Bool.false_ne_true)]

/-- An encoded character begins with a byte that is the character itself or lies outside ASCII. -/
theorem exists_char {c : Char} (h : set c = true) :
    ∃ b tail, char set c = byte b ++ tail ∧ (b.toNat = c.toNat ∨ 0x80 ≤ b.toNat) := by
  obtain ⟨k, hk⟩ := Utf8.exists_spans c
  refine ⟨UInt8.ofNat (Utf8.mark k + c.toNat / 64 ^ k),
    (Utf8.continuation k c.toNat).flatMap byte, ?_, ?_⟩
  · rw [char, if_pos h, Utf8.utf8EncodeChar_eq hk, List.flatMap_cons]
  · rw [Utf8.toNat_ofNat_of_lt (Utf8.firstByte_lt hk)]
    cases hk <;> simp only [Utf8.mark] <;> omega

/-- A text without characters of the set is written as it is. -/
theorem encode_eq_self (h : ∀ c ∈ text, set c = false) : encode set text = text := by
  induction text with
  | nil => rfl
  | cons c text ih =>
    rw [encode_cons, char_of_not_mem (h c List.mem_cons_self),
      ih fun d hd => h d (List.mem_cons_of_mem _ hd), List.singleton_append]

/-- A text without percent signs is read as it is. -/
theorem decode_of_plain (h : '%' ∉ text) : decode text = Utf8.encode text := by
  induction text with
  | nil => rfl
  | cons c text ih =>
    have hc : c ≠ '%' := fun heq => h (heq ▸ List.mem_cons_self)
    have hrest : '%' ∉ text := fun hmem => h (List.mem_cons_of_mem _ hmem)
    rw [decode, ih hrest]
    · rfl
    · intro a b rest heq
      exact absurd heq hc

theorem chars?_decode_of_plain (h : '%' ∉ text) : Utf8.chars? (decode text) = some text := by
  rw [decode_of_plain h, Utf8.chars?_eq_some_iff]

end SecretClient.Percent
