import SecretClient.Proofs.Text.Pieces
import SecretClient.Url.Ipv4

/-!
# IPv4 addresses written and read

* `read?_text` : the written form of an address is read as the address
* `isDue_text` : it is the text of a number, so a host with it is read as an address
-/

namespace SecretClient.Ipv4

/-- The text of a byte: digits that are read as the byte, in base ten as there is no zero in front. -/
theorem number?_text {b : Nat} (h : b < 256) :
    number? (Digit.text 10 b) = some b ∧ Digit.text 10 b ≠ [] ∧
      ∀ c ∈ Digit.text 10 b, c.isDigit = true := by
  have hall : ∀ b < 256, number? (Digit.text 10 b) = some b ∧ Digit.text 10 b ≠ [] ∧
      (Digit.text 10 b).all Char.isDigit = true := by decide +kernel
  obtain ⟨hnumber, hne, hdigits⟩ := hall b h
  exact ⟨hnumber, hne, List.all_eq_true.mp hdigits⟩

theorem ne_dot_of_isDigit {c : Char} (h : c.isDigit = true) : c ≠ '.' := by
  rintro rfl
  exact absurd h (by decide)

theorem lt_of_mem_bytes (a : Ipv4) : ∀ b ∈ a.bytes, b < 256 := by
  have hlt := a.value.toNat_lt
  intro b hb
  simp only [bytes, List.mem_cons, List.not_mem_nil, or_false] at hb
  omega

/-- The texts of the four bytes. -/
def pieces (a : Ipv4) : List (List Char) := a.bytes.map (Digit.text 10)

theorem isDigit_of_mem_pieces {a : Ipv4} : ∀ piece ∈ a.pieces,
    piece ≠ [] ∧ ∀ c ∈ piece, c.isDigit = true := by
  intro piece hpiece
  obtain ⟨b, hb, rfl⟩ := List.mem_map.mp hpiece
  exact (number?_text (lt_of_mem_bytes a b hb)).2

theorem text_ne_nil (a : Ipv4) : a.text ≠ [] := by
  unfold text bytes
  rw [List.map_cons, List.map_cons, List.intercalate_cons_cons]
  simp

theorem parts_text (a : Ipv4) : parts a.text = a.pieces := by
  have hsplit : a.text.splitOn '.' = a.pieces := by
    refine List.splitOn_intercalate '.' (fun piece hpiece hdot => ?_) (List.cons_ne_nil _ _)
    exact ne_dot_of_isDigit ((isDigit_of_mem_pieces piece hpiece).2 '.' hdot) rfl
  unfold parts
  dsimp only
  rw [hsplit, if_neg]
  intro hlast
  exact (isDigit_of_mem_pieces _ (List.mem_of_getLast? hlast)).1 rfl

/-- The bytes in front of the last one are those of the number without its last eight bits. -/
theorem number_bytes (a : Ipv4) :
    Digit.number 256 a.bytes.dropLast * Nat.pow 256 1 + a.value.toNat % 0x100 = a.value.toNat := by
  have hlt := a.value.toNat_lt
  have hpow : Nat.pow 256 1 = 256 := rfl
  simp only [bytes, List.dropLast, Digit.number, List.foldl_cons, List.foldl_nil, hpow]
  omega

/-- **The text of an address is read as the address.** -/
theorem read?_text (a : Ipv4) : read? a.text = some a := by
  have hnumbers : a.pieces.mapM number? = some a.bytes := by
    have hb := fun b hb => (number?_text (lt_of_mem_bytes a b hb)).1
    simp only [bytes, List.mem_cons, List.not_mem_nil, or_false, forall_eq_or_imp, forall_eq] at hb
    obtain ⟨h1, h2, h3, h4⟩ := hb
    simp [pieces, bytes, h1, h2, h3, h4]
  have hlength : ¬ 4 < a.pieces.length := by simp [pieces, bytes]
  have hlast : a.bytes.getLast? = some (a.value.toNat % 0x100) := rfl
  have hfront : ¬ a.bytes.dropLast.any (255 < ·) = true := by
    simp only [List.any_eq_true, not_exists, not_and, decide_eq_true_eq, Nat.not_lt]
    exact fun b hb => Nat.le_of_lt_succ (lt_of_mem_bytes a b ((List.dropLast_sublist _).subset hb))
  have hleft : 4 - a.bytes.dropLast.length = 1 := rfl
  have hlow : ¬ Nat.pow 256 1 ≤ a.value.toNat % 0x100 := by
    have hmod := Nat.mod_lt a.value.toNat (show 0 < 0x100 by decide)
    exact Nat.not_le.mpr hmod
  unfold read?
  dsimp only
  rw [parts_text, if_neg hlength, hnumbers, Option.bind_eq_bind, Option.bind_some, hlast,
    Option.bind_eq_bind, Option.bind_some, if_neg hfront, hleft, if_neg hlow, number_bytes,
    UInt32.ofNat_toNat]

example : read? "127.0.0.1".toList = some ⟨0x7F000001⟩ := by decide +kernel

/-- A host with the text of an address is read as an address. -/
theorem isDue_text (a : Ipv4) : isDue a.text = true := by
  have hlast : a.pieces.getLast? = some (Digit.text 10 (a.value.toNat % 0x100)) := rfl
  obtain ⟨hne, hdigits⟩ := isDigit_of_mem_pieces _ (List.mem_of_getLast? hlast)
  unfold isDue
  rw [parts_text, hlast]
  split
  · next hnone => cases hnone
  · next hempty => exact absurd (Option.some.inj hempty) hne
  · next last _ heq =>
    rw [← Option.some.inj heq, List.all_eq_true.mpr hdigits, Bool.true_or]

end SecretClient.Ipv4
