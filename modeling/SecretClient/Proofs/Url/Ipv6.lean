import SecretClient.Proofs.Text.Digit
import SecretClient.Proofs.Text.Pieces
import SecretClient.Url.Ipv6

/-!
# IPv6 addresses written and read

* `read?_text` : the written form of an address is read as the address, whether it is shortened or not
-/

namespace SecretClient.Ipv6

/-! ## Groups -/

/-- The text of a piece is a group without colons and dots. -/
theorem not_mark_of_mem_text {p : Nat} {c : Char} (hc : c ∈ Digit.text 16 p) :
    c ≠ ':' ∧ c ≠ '.' := by
  have hall : ∀ d < 16, Nat.digitChar d ≠ ':' ∧ Nat.digitChar d ≠ '.' := by decide
  obtain ⟨d, hd, rfl⟩ := Digit.exists_of_mem_text (by decide) hc
  exact hall d hd

theorem piece?_text {p : Nat} (h : p < 0x10000) : piece? (Digit.text 16 p) = some p := by
  have hshort : (Digit.text 16 p).length ≤ 4 :=
    (Nat.length_toDigits_le_iff (by decide) (by decide)).mpr h
  have hlong : 1 ≤ (Digit.text 16 p).length := Nat.length_toDigits_pos
  rw [piece?, if_pos ⟨hlong, hshort⟩, Digit.read?_text (by decide) (by decide)]

theorem groups?_text {ps : List Nat} (h : ∀ p ∈ ps, p < 0x10000) :
    groups? (ps.map (Digit.text 16)) = some ps := by
  induction ps with
  | nil => rfl
  | cons p ps ih =>
    have hp := piece?_text (h p List.mem_cons_self)
    cases ps with
    | nil =>
      have hdot : ¬ (Digit.text 16 p).contains '.' = true := by
        rw [List.contains_iff_mem]
        exact fun hdot => (not_mark_of_mem_text hdot).2 rfl
      rw [List.map_singleton, groups?, if_neg hdot, hp]
      rfl
    | cons q ps =>
      rw [List.map_cons, groups?, hp, ih fun r hr => h r (List.mem_cons_of_mem _ hr)]
      · rfl
      · intro heq
        cases heq

theorem join_cons_cons (p q : Nat) (ps : List Nat) :
    join (p :: q :: ps) = Digit.text 16 p ++ ':' :: join (q :: ps) := by
  unfold join
  rw [List.map_cons, List.map_cons, List.intercalate_cons_cons, List.append_assoc,
    List.singleton_append]

/-- Groups begin with a digit. -/
theorem exists_join (p : Nat) (ps : List Nat) : ∃ c rest, join (p :: ps) = c :: rest ∧ c ≠ ':' := by
  obtain ⟨c, digits, hdigits⟩ := List.exists_cons_of_ne_nil (Digit.text_ne_nil 16 p)
  have hc : c ≠ ':' := (not_mark_of_mem_text (hdigits ▸ List.mem_cons_self)).1
  cases ps with
  | nil =>
    refine ⟨c, digits, ?_, hc⟩
    rw [← hdigits]
    exact List.intercalate_singleton
  | cons q ps => exact ⟨c, digits ++ ':' :: join (q :: ps), by rw [join_cons_cons, hdigits]; rfl, hc⟩

theorem pieces?_join {ps : List Nat} (h : ∀ p ∈ ps, p < 0x10000) : pieces? (join ps) = some ps := by
  cases ps with
  | nil => rfl
  | cons p ps =>
    have hsplit : (join (p :: ps)).splitOn ':' = (p :: ps).map (Digit.text 16) := by
      refine List.splitOn_intercalate ':' (fun group hgroup hcolon => ?_) (List.cons_ne_nil _ _)
      obtain ⟨q, -, rfl⟩ := List.mem_map.mp hgroup
      exact (not_mark_of_mem_text hcolon).1 rfl
    have hne : ¬ (join (p :: ps)).isEmpty = true := by
      obtain ⟨c, rest, hjoin, -⟩ := exists_join p ps
      rw [hjoin]
      exact Bool.false_ne_true
    rw [pieces?, if_neg hne, hsplit, groups?_text h]

/-! ## The two colons of a shortened address -/

theorem cut?_append {text : List Char} (h : ∀ c ∈ text, c ≠ ':') (rest : List Char) :
    cut? (text ++ rest) = (cut? rest).map fun cut => (text ++ cut.1, cut.2) := by
  induction text with
  | nil => simp
  | cons c text ih =>
    have hc : c ≠ ':' := h c List.mem_cons_self
    rw [List.cons_append, cut?, ih fun d hd => h d (List.mem_cons_of_mem _ hd), Option.map_map]
    · rfl
    · intro rest' heq
      exact absurd heq hc

/-- The groups in front of two colons hold no two colons themselves. -/
theorem cut?_join (ps : List Nat) (rest : List Char) :
    cut? (join ps ++ rest) = (cut? rest).map fun cut => (join ps ++ cut.1, cut.2) := by
  induction ps with
  | nil => exact Option.map_id'.symm
  | cons p ps ih =>
    have hplain : ∀ c ∈ Digit.text 16 p, c ≠ ':' := fun c hc => (not_mark_of_mem_text hc).1
    cases ps with
    | nil =>
      have hjoin : join [p] = Digit.text 16 p := List.intercalate_singleton
      rw [hjoin, cut?_append hplain]
    | cons q ps =>
      -- the colon between two groups has a digit behind it
      obtain ⟨c, digits, hjoin, hc⟩ := exists_join q ps
      have hcolon : cut? (':' :: join (q :: ps) ++ rest)
          = (cut? (join (q :: ps) ++ rest)).map fun cut => (':' :: cut.1, cut.2) := by
        rw [hjoin, List.cons_append, List.cons_append, cut?]
        intro rest' _ heq
        exact hc (List.cons.inj heq).1
      rw [join_cons_cons, List.append_assoc, cut?_append hplain, hcolon, ih, Option.map_map,
        Option.map_map]
      congr 1
      funext cut
      simp

theorem exists_of_around? {n : Nat} {ps before after : List Nat}
    (h : around? n ps = some (before, after)) : ps = before ++ List.replicate n 0 ++ after := by
  induction ps generalizing before with
  | nil => cases h
  | cons p ps ih =>
    rw [around?] at h
    split at h
    · next hzeros =>
      cases h
      have hlead : (p :: ps).take n = List.replicate n 0 := by
        refine List.eq_replicate_iff.mpr ⟨?_, fun q hq => ?_⟩
        · have hle : zeros (p :: ps) ≤ (p :: ps).length := (List.takeWhile_sublist _).length_le
          rw [List.length_take]
          omega
        · rw [← List.takeWhile_append_dropWhile (p := fun q => decide (q = 0)) (l := p :: ps),
            List.take_append_of_le_length hzeros] at hq
          have hzero := List.mem_takeWhile_imp (List.mem_of_mem_take hq)
          exact of_decide_eq_true hzero
      rw [List.nil_append, ← hlead, List.take_append_drop]
    · obtain ⟨⟨before', after'⟩, hrest, heq⟩ := Option.map_eq_some_iff.mp h
      cases heq
      rw [List.cons_append, List.cons_append, ← ih hrest]

/-- What is left of the eight pieces is filled up with zeros. -/
theorem expand?_shortened {before after : List Nat} {n : Nat} (hn : 2 ≤ n)
    (hbefore : ∀ p ∈ before, p < 0x10000) (hafter : ∀ p ∈ after, p < 0x10000)
    (hlength : before.length + n + after.length = 8) :
    expand? (join before ++ [':', ':'] ++ join after)
      = some (before ++ List.replicate n 0 ++ after) := by
  have hcut : cut? (join before ++ [':', ':'] ++ join after) = some (join before, join after) := by
    rw [List.append_assoc, cut?_join, List.cons_append, List.cons_append, List.nil_append, cut?,
      Option.map_some, List.append_nil]
  have hdot : ¬ (join before).contains '.' = true := by
    rw [List.contains_iff_mem]
    intro hdot
    rcases Pieces.mem_intercalate hdot with heq | ⟨group, hgroup, hdot⟩
    · exact absurd heq (by decide)
    · obtain ⟨q, -, rfl⟩ := List.mem_map.mp hgroup
      exact (not_mark_of_mem_text hdot).2 rfl
  have hzeros : 8 - before.length - after.length = n := by omega
  have hroom : ¬ 7 < before.length + after.length := by omega
  unfold expand?
  rw [hcut]
  dsimp only
  rw [if_neg hdot, pieces?_join hbefore, pieces?_join hafter]
  simp only [Option.bind_eq_bind, Option.bind_some]
  rw [if_neg hroom, hzeros]

theorem expand?_text (a : Ipv6) : expand? a.text = some a.pieces := by
  unfold text
  split
  · next before after haround =>
    obtain ⟨hn, haround⟩ := Option.ite_none_right_eq_some.mp haround
    have hpieces := exists_of_around? haround
    generalize longest a.pieces = n at hn hpieces
    have hlt := a.lt
    have hlength := a.length_eq
    rw [hpieces] at hlt hlength ⊢
    refine expand?_shortened hn (fun p hp => hlt p ?_) (fun p hp => hlt p ?_) ?_
    · exact List.mem_append_left _ (List.mem_append_left _ hp)
    · exact List.mem_append_right _ hp
    · rw [List.length_append, List.length_append, List.length_replicate] at hlength
      exact hlength
  · have hcut : cut? (join a.pieces) = none := by
      have happend := cut?_join a.pieces []
      rwa [List.append_nil] at happend
    rw [expand?, hcut]
    exact pieces?_join a.lt

/-- **The text of an address is read as the address.** -/
theorem read?_text (a : Ipv6) : read? a.text = some a := by
  rw [read?, expand?_text, Option.bind_eq_bind, Option.bind_some, dif_pos ⟨a.length_eq, a.lt⟩]

example : (read? "1:0:0:2::3".toList).map pieces = some [1, 0, 0, 2, 0, 0, 0, 3] := by
  decide +kernel

/-- The text of an address is made of digits and colons. -/
theorem mem_text {a : Ipv6} {c : Char} (h : c ∈ a.text) :
    c = ':' ∨ ∃ d < 16, c = Nat.digitChar d := by
  have hjoin : ∀ ps, c ∈ join ps → c = ':' ∨ ∃ d < 16, c = Nat.digitChar d := by
    intro ps hc
    rcases Pieces.mem_intercalate hc with hc | ⟨group, hgroup, hc⟩
    · exact Or.inl hc
    · obtain ⟨p, -, rfl⟩ := List.mem_map.mp hgroup
      exact Or.inr (Digit.exists_of_mem_text (by decide) hc)
  unfold text at h
  split at h
  · rw [List.mem_append, List.mem_append] at h
    rcases h with (h | h) | h
    · exact hjoin _ h
    · simp only [List.mem_cons, List.not_mem_nil, or_false, or_self] at h
      exact Or.inl h
    · exact hjoin _ h
  · exact hjoin _ h

end SecretClient.Ipv6
