import Mathlib.Algebra.Group.Nat.Defs
import SecretClient.Proofs.Url.Punycode

/-!
# Labels decoded again

What the encoder writes, the decoder reads: after each character that is written, the two have the
same characters in place and the same bias, and the difference that the encoder counts up is the way
that the decoder has still to go.

* `readDelta_digits` : a difference is read as it was written
* `InStep.pass`, `InStep.rounds` : the decoder keeps in step with the encoder
* `decode?_encode` : a label of at most a thousand characters is decoded again
-/

namespace SecretClient.Punycode

/-! ## One difference -/

theorem value?_digit {n : Nat} (h : n < 36) : value? (digit n) = some n := by
  have hall : ∀ m < 36, value? (digit m) = some m := by decide
  exact hall n h

/-- The weights that the digits of a difference have: powers of 35 as long as the thresholds are 1,
and from the second threshold on that is not 1 all thresholds are 26. -/
def Regular (bias k weight : Nat) : Prop := (∃ j, weight = 35 ^ j) ∨ threshold bias k = 26

theorem Regular.next {bias k weight : Nat} (h : Regular bias k weight) :
    Regular bias (k + 36) (weight * (36 - threshold bias k)) := by
  by_cases hone : threshold bias k = 1
  · rcases h with ⟨j, rfl⟩ | hlast
    · exact Or.inl ⟨j + 1, by rw [hone, Nat.pow_succ]⟩
    · omega
  · right
    unfold threshold at hone ⊢
    omega

/-- A difference below 35⁶ never comes to a weight that is refused. -/
theorem Regular.weight_lt {bias k weight delta : Nat} (h : Regular bias k weight)
    (hmore : threshold bias k ≤ delta) (hsmall : weight * delta < 35 ^ 6) :
    weight * (36 - threshold bias k) < 0x100000000 := by
  have hlow := one_le_threshold bias k
  rcases h with ⟨j, rfl⟩ | hlast
  · have hj : 35 ^ j < 35 ^ 6 :=
      Nat.lt_of_le_of_lt (Nat.le_mul_of_pos_right _ (by omega)) hsmall
    have hle : 35 ^ j * (36 - threshold bias k) ≤ 35 ^ 6 :=
      calc 35 ^ j * (36 - threshold bias k) ≤ 35 ^ j * 35 := Nat.mul_le_mul_left _ (by omega)
        _ = 35 ^ (j + 1) := (Nat.pow_succ ..).symm
        _ ≤ 35 ^ 6 := Nat.pow_le_pow_right (by decide) ((Nat.pow_lt_pow_iff_right (by decide)).mp hj)
    omega
  · have hle : weight * (36 - threshold bias k) ≤ weight * delta := Nat.mul_le_mul_left _ (by omega)
    omega

/-- **A difference is read as it was written**, if it is below 35⁶ and leads to no place that is
refused. -/
theorem readDelta_digits {bias k weight i delta : Nat} (rest : List Char)
    (hregular : Regular bias k weight) (hsmall : weight * delta < 35 ^ 6)
    (hplace : i + weight * delta < 0x100000000) :
    (readDelta bias k weight i (digits bias k delta ++ rest)).map (fun r => (r.1, r.2.val))
      = some (i + weight * delta, rest) := by
  induction delta using Nat.strongRecOn generalizing k weight i with
  | ind delta ih =>
    have hlow := one_le_threshold bias k
    have hle := threshold_le bias k
    by_cases hlt : delta < threshold bias k
    · rw [digits, if_pos hlt]
      have hread : ¬ i + delta * weight ≥ 0x100000000 := by
        rw [Nat.mul_comm delta weight]
        omega
      rw [List.singleton_append, readDelta, value?_digit (by omega), Option.bind_eq_bind,
        Option.bind_some]
      dsimp only
      rw [if_neg hread, if_pos hlt, Nat.mul_comm delta weight]
      rfl
    · have hweight := hregular.weight_lt (Nat.le_of_not_lt hlt) hsmall
      have hnext := hregular.next
      rw [digits, if_neg hlt]
      generalize ht : threshold bias k = t at hlow hle hlt hweight hnext
      have hless : (delta - t) / (36 - t) < delta := by
        have hdiv := Nat.div_le_self (delta - t) (36 - t)
        omega
      have hread := fun i => @ih _ hless (k + 36) (weight * (36 - t)) i hnext
      have hmod := Nat.mod_lt (delta - t) (show 0 < 36 - t by omega)
      have hdiv := Nat.div_add_mod (delta - t) (36 - t)
      generalize (delta - t) % (36 - t) = last at hmod hdiv ⊢
      generalize (delta - t) / (36 - t) = front at hdiv hread ⊢
      -- the digit and what is left of the difference, both times the weight
      have hparts : weight * delta = (t + last) * weight + weight * (36 - t) * front := by
        rw [show delta = t + last + (36 - t) * front by omega, Nat.mul_add,
          Nat.mul_comm weight (t + last), Nat.mul_assoc]
      obtain ⟨⟨j, r, hr⟩, hrest, heq⟩ := Option.map_eq_some_iff.mp
        (hread (i + (t + last) * weight) (by omega) (by omega))
      rw [List.cons_append, readDelta, value?_digit (by omega), Option.bind_eq_bind,
        Option.bind_some]
      dsimp only
      rw [ht, if_neg (by omega), if_neg (by omega), if_neg (by omega), hrest, Option.bind_eq_bind,
        Option.bind_some, hparts, ← Nat.add_assoc]
      exact congrArg some heq

/-! ## The decoder -/

/-- The state of the decoder: the characters in place, the value and the place it has come to, and
the bias. -/
structure Reader where
  out : List Char
  n : Nat
  i : Nat
  bias : Nat

/-- What the decoder makes of the rest of a text. -/
def Reader.read? (s : Reader) (text : List Char) : Option (List Char) :=
  place s.out s.n s.i s.bias text

/-- A text takes the decoder from one state to another, whatever stands behind it. -/
def Reader.Takes (s : Reader) (text : List Char) (s' : Reader) : Prop :=
  ∀ rest, s.read? (text ++ rest) = s'.read? rest

theorem insertIdx_length_append {front back : List Char} {c : Char} :
    (front ++ back).insertIdx front.length c = front ++ c :: back := by
  induction front with
  | nil => rfl
  | cons d front ih =>
    rw [List.cons_append, List.length_cons, List.insertIdx_succ_cons, ih, List.cons_append]

/-- A value and a place among the characters of a label are one number. -/
theorem div_mod_of_sum {n count j value index : Nat} (hindex : index < count)
    (hsum : n * count + j = value * count + index) : n + j / count = value ∧ j % count = index := by
  have hpos : 0 < count := by omega
  constructor
  · rw [Nat.add_comm, ← Nat.add_mul_div_right _ _ hpos, Nat.add_comm, hsum, Nat.add_comm,
      Nat.add_mul_div_right _ _ hpos, Nat.div_eq_of_lt hindex, Nat.zero_add]
  · rw [← Nat.add_mul_mod_self_right j n count, Nat.add_comm, hsum, Nat.add_comm,
      Nat.add_mul_mod_self_right, Nat.mod_eq_of_lt hindex]

/-- **One difference puts one character into its place**, the one that the value and the place of the
decoder come to when the difference is added to them. -/
theorem Reader.takes_digits {s : Reader} {front back : List Char} {c : Char} {delta : Nat}
    (hout : s.out = front ++ back) (hlength : s.out.length < 1000)
    (hsum : s.n * (s.out.length + 1) + s.i + delta
      = c.toNat * (s.out.length + 1) + front.length) :
    s.Takes (digits s.bias 36 delta)
      { out := front ++ c :: back, n := c.toNat, i := front.length + 1
        bias := adapt delta (s.out.length + 1) (s.i == 0) } := by
  intro rest
  have hindex : front.length < s.out.length + 1 := by
    rw [hout, List.length_append]
    omega
  have hvalid : c.toNat.isValidChar := c.valid
  have hhigh : c.toNat < 0x110000 := by
    unfold Nat.isValidChar at hvalid
    omega
  have hbound : c.toNat * (s.out.length + 1) ≤ 0x10FFFF * 1000 :=
    Nat.mul_le_mul (by omega) (by omega)
  obtain ⟨⟨j, r, hr⟩, hread, heq⟩ := Option.map_eq_some_iff.mp
    (@readDelta_digits s.bias 36 1 s.i delta rest (Or.inl ⟨0, rfl⟩) (by omega) (by omega))
  obtain ⟨rfl, hrest⟩ := Prod.mk.inj heq
  obtain rfl : r = rest := hrest
  obtain ⟨hvalue, hplace⟩ : s.n + (s.i + 1 * delta) / (s.out.length + 1) = c.toNat ∧
      (s.i + 1 * delta) % (s.out.length + 1) = front.length :=
    div_mod_of_sum hindex (by omega)
  have hne : ¬ (digits s.bias 36 delta ++ r).isEmpty = true := by
    rw [List.isEmpty_iff, List.append_eq_nil_iff]
    exact fun hnil => digits_ne_nil _ _ _ hnil.1
  unfold Reader.read?
  rw [place, if_neg hne, hread]
  dsimp only
  rw [hvalue, hplace, if_pos hvalid, Char.ofNat_toNat, Nat.add_sub_cancel_left, Nat.one_mul, hout,
    insertIdx_length_append]

/-! ## The encoder -/

/-- The encoder goes from one state to another and writes what takes the decoder along. -/
def Leads (w : Writer) (s : Reader) (w' : Writer) (s' : Reader) : Prop :=
  ∃ text, w'.out = text.reverse ++ w.out ∧ s.Takes text s'

theorem Leads.of_out_eq {w w' : Writer} (h : w'.out = w.out) (s : Reader) : Leads w s w' s :=
  ⟨[], h, fun _ => rfl⟩

theorem Leads.trans {w w' w'' : Writer} {s s' s'' : Reader} (h : Leads w s w' s')
    (h' : Leads w' s' w'' s'') : Leads w s w'' s'' := by
  obtain ⟨text, hout, htakes⟩ := h
  obtain ⟨text', hout', htakes'⟩ := h'
  refine ⟨text ++ text', ?_, fun rest => ?_⟩
  · rw [hout', hout, List.reverse_append, List.append_assoc]
  · rw [List.append_assoc, htakes, htakes']

variable {basic n at_ : Nat} {label front back : List Char} {c : Char} {w : Writer} {s : Reader}

/-- What holds of the two in the round of the value `n`, when the characters in `front` are passed and
those in `back` are not: the decoder has come to the place behind the ones that are passed as soon as
the difference is added. -/
structure InStep (basic n : Nat) (front back : List Char) (w : Writer) (s : Reader) : Prop where
  out : s.out = front.filter (·.toNat ≤ n) ++ back.filter (·.toNat < n)
  count : w.count = s.out.length
  bias : w.bias = s.bias
  sum : s.n * (s.out.length + 1) + s.i + w.delta
    = n * (s.out.length + 1) + (front.filter (·.toNat ≤ n)).length
  first : s.i = 0 ↔ w.count = basic
  basic_le : basic ≤ w.count

theorem filter_snoc_of_le (h : c.toNat ≤ n) :
    (front ++ [c]).filter (·.toNat ≤ n) = front.filter (·.toNat ≤ n) ++ [c] := by
  rw [List.filter_append, List.filter_cons_of_pos (by simpa using h), List.filter_nil]

theorem filter_snoc_of_not_le (h : ¬ c.toNat ≤ n) :
    (front ++ [c]).filter (·.toNat ≤ n) = front.filter (·.toNat ≤ n) := by
  rw [List.filter_append, List.filter_cons_of_neg (by simpa using h), List.filter_nil,
    List.append_nil]

/-- **The decoder keeps in step from one character to the next.** -/
theorem InStep.pass (h : InStep basic n front (c :: back) w s)
    (hlength : front.length + back.length < 1000) :
    ∃ s', Leads w s (w.pass basic n c) s' ∧
      InStep basic n (front ++ [c]) back (w.pass basic n c) s' := by
  obtain ⟨hout, hcount, hbias, hsum, hfirst, hbasic⟩ := h
  unfold Writer.pass
  split
  · next hbelow =>
    -- the character is in place already
    have hpassed := @filter_snoc_of_le n front c (Nat.le_of_lt hbelow)
    rw [List.filter_cons_of_pos (by simpa using hbelow)] at hout
    refine ⟨s, Leads.of_out_eq rfl s, ?_, hcount, hbias, ?_, hfirst, hbasic⟩
    · rw [hpassed, hout, List.append_assoc, List.singleton_append]
    · rw [hpassed, List.length_append, List.length_singleton]
      dsimp only
      omega
  · split
    · next heq =>
      subst heq
      have hpassed := @filter_snoc_of_le c.toNat front c (Nat.le_refl _)
      rw [List.filter_cons_of_neg (by simp)] at hout
      have hfits : s.out.length < 1000 := by
        have hfront := List.length_filter_le (fun d : Char => decide (d.toNat ≤ c.toNat)) front
        have hback := List.length_filter_le (fun d : Char => decide (d.toNat < c.toNat)) back
        rw [hout, List.length_append]
        omega
      have hflag : (s.i == 0) = (w.count == basic) := by
        rw [Bool.eq_iff_iff, beq_iff_eq, beq_iff_eq]
        exact hfirst
      have htakes := Reader.takes_digits hout hfits hsum
      rw [hflag, ← hbias, ← hcount] at htakes
      refine ⟨_, ⟨_, rfl, htakes⟩, ?_, ?_, rfl, ?_, ?_, ?_⟩
      · rw [hpassed, List.append_assoc, List.singleton_append]
      · rw [hcount, hout, List.length_append, List.length_append, List.length_cons, Nat.add_assoc]
      · rw [hpassed]
        simp only [List.length_append, List.length_cons, List.length_nil, Nat.add_zero, Nat.zero_add]
      · dsimp only
        omega
      · dsimp only
        omega
    · next habove hne =>
      -- the turn of the character is in a later round
      have hlater := @filter_snoc_of_not_le n front c (by omega)
      rw [List.filter_cons_of_neg (by simpa using habove)] at hout
      refine ⟨s, Leads.of_out_eq rfl s, ?_, hcount, hbias, ?_, hfirst, hbasic⟩
      · rw [hlater, hout]
      · rw [hlater, hsum]

/-- The decoder keeps in step to the end of the label. -/
theorem InStep.foldl_pass (h : InStep basic n front back w s)
    (hlength : front.length + back.length ≤ 1000) :
    ∃ s', Leads w s (back.foldl (Writer.pass basic n) w) s' ∧
      InStep basic n (front ++ back) [] (back.foldl (Writer.pass basic n) w) s' := by
  induction back generalizing front w s with
  | nil =>
    rw [List.append_nil]
    exact ⟨s, Leads.of_out_eq rfl s, h⟩
  | cons c back ih =>
    rw [List.length_cons] at hlength
    obtain ⟨s', hleads, hnext⟩ := h.pass (by omega)
    obtain ⟨s'', hleads', hend⟩ := ih hnext (by rw [List.length_append, List.length_singleton]; omega)
    rw [List.append_assoc, List.singleton_append] at hend
    exact ⟨s'', hleads.trans hleads', hend⟩

/-- Values that no character has are passed without a trace, but for the difference. -/
theorem InStep.advance (h : InStep basic at_ [] label w s) (hle : at_ ≤ n)
    (hnone : ∀ c ∈ label, at_ ≤ c.toNat → n ≤ c.toNat) :
    InStep basic n [] label { w with delta := w.delta + (n - at_) * (w.count + 1) } s := by
  obtain ⟨hout, hcount, hbias, hsum, hfirst, hbasic⟩ := h
  refine ⟨?_, hcount, hbias, ?_, hfirst, hbasic⟩
  · rw [hout]
    refine congrArg _ (List.filter_congr fun c hc => ?_)
    have hc' := hnone c hc
    rw [decide_eq_decide]
    omega
  · obtain ⟨j, rfl⟩ := Nat.exists_eq_add_of_le hle
    dsimp only
    rw [Nat.add_sub_cancel_left, Nat.add_mul, hcount, ← Nat.add_assoc, hsum]
    simp only [List.filter_nil, List.length_nil]
    omega

/-- Behind the last character the decoder goes on to the next value. -/
theorem InStep.round (h : InStep basic n label [] w s) :
    InStep basic (n + 1) [] label { w with delta := w.delta + 1 } s := by
  obtain ⟨hout, hcount, hbias, hsum, hfirst, hbasic⟩ := h
  rw [List.filter_nil, List.append_nil] at hout
  refine ⟨?_, hcount, hbias, ?_, hfirst, hbasic⟩
  · simp only [hout, List.filter_nil, List.nil_append, Nat.lt_succ_iff]
  · rw [← hout] at hsum
    dsimp only
    rw [Nat.add_mul, ← Nat.add_assoc, hsum]
    simp only [List.filter_nil, List.length_nil]
    omega

/-- **The decoder keeps in step from round to round**, and in the end the label is in place. -/
theorem InStep.rounds {values : List Nat} (h : InStep basic at_ [] label w s)
    (hlength : label.length ≤ 1000) (hascends : values.Pairwise (· < ·))
    (hge : ∀ n ∈ values, at_ ≤ n) (hvalues : ∀ c ∈ label, at_ ≤ c.toNat → c.toNat ∈ values) :
    ∃ s', Leads w s (rounds label basic values at_ w) s' ∧ s'.out = label := by
  induction values generalizing at_ w s with
  | nil =>
    refine ⟨s, Leads.of_out_eq rfl s, ?_⟩
    rw [h.out, List.filter_nil, List.nil_append]
    refine List.filter_eq_self.mpr fun c hc => decide_eq_true (Nat.lt_of_not_le fun hle => ?_)
    exact List.not_mem_nil (hvalues c hc hle)
  | cons n values ih =>
    obtain ⟨hn, hascends⟩ := List.pairwise_cons.mp hascends
    have hnone : ∀ c ∈ label, at_ ≤ c.toNat → n ≤ c.toNat := by
      intro c hc hle
      rcases List.mem_cons.mp (hvalues c hc hle) with heq | hmem
      · exact Nat.le_of_eq heq.symm
      · exact Nat.le_of_lt (hn _ hmem)
    have hround := h.advance (hge n List.mem_cons_self) hnone
    obtain ⟨s', hleads, hend⟩ := hround.foldl_pass (by rwa [List.length_nil, Nat.zero_add])
    rw [List.nil_append] at hend
    obtain ⟨s'', hleads', hplaced⟩ := ih hend.round hascends hn fun c hc hlt => by
      have hle := hge n List.mem_cons_self
      rcases List.mem_cons.mp (hvalues c hc (by omega)) with heq | hmem
      · omega
      · exact hmem
    rw [Punycode.rounds]
    exact ⟨s'', hleads.trans hleads', hplaced⟩

/-! ## A label -/

/-- The values of the encoder's rounds are those of the characters outside ASCII. -/
theorem mem_values {n : Nat} :
    n ∈ ((label.filter (0x80 ≤ ·.toNat)).map Char.toNat).mergeSort.eraseReps ↔
      ∃ c ∈ label, 0x80 ≤ c.toNat ∧ c.toNat = n := by
  rw [mem_eraseReps, List.mem_mergeSort, List.mem_map]
  simp only [List.mem_filter, decide_eq_true_eq, and_assoc]

theorem pairwise_values (values : List Nat) : values.mergeSort.eraseReps.Pairwise (· < ·) := by
  have hsorted := @List.pairwise_mergeSort Nat (fun m n => decide (m ≤ n))
    (fun l m n hlm hmn => decide_eq_true (Nat.le_trans (of_decide_eq_true hlm) (of_decide_eq_true hmn)))
    (fun m n => by simpa using Nat.le_total m n) values
  exact pairwise_eraseReps (hsorted.imp of_decide_eq_true)

theorem splitLast_encoded {front back : List Char} (h : ∀ c ∈ back, IsDigit c) :
    splitLast (front ++ (if front.isEmpty then [] else ['-']) ++ back) = (front, back) := by
  have hback := fun c hc => ne_hyphen_of_isDigit (h c hc)
  split
  · next hempty =>
    rw [List.isEmpty_iff.mp hempty, List.nil_append, List.nil_append, splitLast_eq_self hback]
  · next hne =>
    rw [List.append_assoc, List.singleton_append, splitLast_append hback, if_neg hne]

/-- **A label of at most a thousand characters is decoded again.** -/
theorem decode?_encode (h : label.length ≤ 1000) : decode? (encode label) = some label := by
  have hin : InStep (label.filter (·.toNat < 0x80)).length 0x80 [] label
      { out := [], delta := 0, bias := 72, count := (label.filter (·.toNat < 0x80)).length }
      ⟨label.filter (·.toNat < 0x80), 0x80, 0, 72⟩ :=
    ⟨rfl, rfl, rfl, rfl, by simp, Nat.le_refl _⟩
  obtain ⟨s', ⟨text, hout, htakes⟩, hplaced⟩ := hin.rounds h (pairwise_values _)
    (fun n hn => by obtain ⟨c, -, hc, rfl⟩ := mem_values.mp hn; exact hc)
    (fun c hc hle => mem_values.mpr ⟨c, hc, hle, rfl⟩)
  rw [List.append_nil] at hout
  have hdigits : ∀ c ∈ text.reverse, IsDigit c := by
    rw [← hout]
    exact rounds_out (List.forall_mem_nil _)
  have hencode : encode label = label.filter (·.toNat < 0x80) ++
      (if (label.filter (·.toNat < 0x80)).isEmpty then [] else ['-']) ++ text := by
    unfold encode
    dsimp only
    rw [hout, List.reverse_reverse]
  rw [decode?, hencode, splitLast_encoded fun c hc => hdigits c (List.mem_reverse.mpr hc)]
  have hread := htakes []
  rw [List.append_nil] at hread
  calc place (label.filter (·.toNat < 0x80)) 0x80 0 72 text = s'.read? [] := hread
    _ = some s'.out := by rw [Reader.read?, place]; rfl
    _ = some label := by rw [hplaced]

end SecretClient.Punycode
