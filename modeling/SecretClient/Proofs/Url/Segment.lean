import SecretClient.Proofs.Text.Percent
import SecretClient.Proofs.Text.Pieces
import SecretClient.Url.Basic

/-!
# Paths read again

The segments of a path that was read for a scheme with a known port are in their written form
(`IsSegment`): nothing in them is encoded again, separates segments, or counts as a dot segment.

* `isSegment_of_mem_read` : what is read is in its written form
* `isDotSegment_iff` : which pieces count as dot segments
* `resolve_of_notDots` : all other pieces are put in place one behind the other
* `rootedAt_text` : segments in their written form are read as themselves
-/

namespace SecretClient.Segment

/-- A segment in its written form. -/
structure IsSegment (s : List Char) : Prop where
  chars : ∀ c ∈ s, EncodeSet.path c = false ∧ SchemeKind.special.separates c = false
  notDots : dots? s ≠ some 1 ∧ dots? s ≠ some 2

theorem isSegment_nil : IsSegment [] := ⟨List.forall_mem_nil _, by decide⟩

/-! ## Encoding makes no dots -/

theorem path_false_of_mem_escapes : ∀ c ∈ Percent.escapes, EncodeSet.path c = false :=
  Pieces.forall_mem_of_all (by decide)

theorem dots?_of_ne {c : Char} (hdot : c ≠ '.') (hpercent : c ≠ '%') (rest : List Char) :
    dots? (c :: rest) = none := by
  unfold dots?
  split <;> simp_all

theorem dots?_percent_of_ne {a : Char} (ha : a ≠ '2') (rest : List Char) :
    dots? ('%' :: a :: rest) = none := by
  unfold dots?
  split <;> simp_all

theorem dots?_percent_two {e : Char} (he : ¬ (e = 'e' ∨ e = 'E')) (rest : List Char) :
    dots? ('%' :: '2' :: e :: rest) = none := by rw [dots?, if_neg he]

/-- A text that begins with an encoded character is no text of dots: only the byte of the dot would
be written as one. -/
theorem dots?_encoded {c : Char} (h : EncodeSet.path c = true) (rest : List Char) :
    dots? (Percent.char EncodeSet.path c ++ rest) = none := by
  have hall : ∀ n < 256, Digit.upperHex (n / 16) = '2' →
      (Digit.upperHex (n % 16) = 'e' ∨ Digit.upperHex (n % 16) = 'E') → n = 0x2E := by decide +kernel
  obtain ⟨b, tail, hchar, hb⟩ := Percent.exists_char h
  rw [hchar, Percent.byte, List.append_assoc, List.cons_append, List.cons_append, List.cons_append]
  by_cases htwo : Digit.upperHex (b.toNat / 16) = '2'
  · rw [htwo]
    refine dots?_percent_two (fun he => ?_) _
    have hdot := hall b.toNat b.toNat_lt htwo he
    have hc : c.toNat = '.'.toNat := by
      show c.toNat = 0x2E
      omega
    rw [Char.toNat_inj.mp hc] at h
    exact absurd h (by decide)
  · exact dots?_percent_of_ne htwo _

theorem encode_cons_of_not_mem {c : Char} (h : EncodeSet.path c = false) (text : List Char) :
    Percent.encode EncodeSet.path (c :: text) = c :: Percent.encode EncodeSet.path text := by
  rw [Percent.encode_cons, Percent.char_of_not_mem h, List.singleton_append]

/-- An encoded character begins with a percent sign. -/
theorem exists_encode_cons {c : Char} (h : EncodeSet.path c = true) (text : List Char) :
    ∃ rest, Percent.encode EncodeSet.path (c :: text) = '%' :: rest := by
  obtain ⟨b, tail, hchar, -⟩ := Percent.exists_char h
  rw [Percent.encode_cons, hchar]
  exact ⟨_, rfl⟩

/-- **A piece of a path writes as many dots when it is encoded.** -/
theorem dots?_encode (piece : List Char) :
    dots? (Percent.encode EncodeSet.path piece) = dots? piece := by
  have hpercent : EncodeSet.path '%' = false := by decide
  have htwo : EncodeSet.path '2' = false := by decide
  fun_induction dots? piece with
  | case1 => rfl
  | case2 rest ih => rw [encode_cons_of_not_mem (by decide), dots?, ih]
  | case3 e rest he ih =>
    have hset : EncodeSet.path e = false := by rcases he with rfl | rfl <;> decide
    rw [encode_cons_of_not_mem hpercent, encode_cons_of_not_mem htwo, encode_cons_of_not_mem hset,
      dots?, if_pos he, ih]
  | case4 e rest he =>
    rw [encode_cons_of_not_mem hpercent, encode_cons_of_not_mem htwo]
    cases hset : EncodeSet.path e with
    | true =>
      obtain ⟨rest', hrest⟩ := exists_encode_cons hset rest
      rw [hrest, dots?_percent_two (by decide)]
    | false => rw [encode_cons_of_not_mem hset, dots?_percent_two he]
  | case5 text hnil hdot hescape =>
    cases text with
    | nil => exact absurd rfl hnil
    | cons c rest =>
      cases hset : EncodeSet.path c with
      | true => rw [Percent.encode_cons, dots?_encoded hset]
      | false =>
        rw [encode_cons_of_not_mem hset]
        by_cases hc : c = '%'
        · -- what follows the percent sign is not the rest of a dot
          subst hc
          cases rest with
          | nil => rfl
          | cons d rest =>
            cases hset : EncodeSet.path d with
            | true =>
              obtain ⟨rest', hrest⟩ := exists_encode_cons hset rest
              rw [hrest, dots?_percent_of_ne (by decide)]
            | false =>
              rw [encode_cons_of_not_mem hset]
              by_cases hd : d = '2'
              · subst hd
                cases rest with
                | nil => rfl
                | cons e rest => exact absurd rfl (hescape e rest)
              · rw [dots?_percent_of_ne hd]
        · exact dots?_of_ne (fun heq => hdot rest (by rw [heq])) hc _

/-! ## Dot segments -/

/-- The ways to write a dot in a path. -/
def dotSpellings : List (List Char) := [['.'], ['%', '2', 'e'], ['%', '2', 'E']]

/-- A segment of one dot or two, in any spelling. -/
def IsDotSegment (s : List Char) : Prop :=
  s ∈ dotSpellings ∨ ∃ a ∈ dotSpellings, ∃ b ∈ dotSpellings, s = a ++ b

instance (s : List Char) : Decidable (IsDotSegment s) := by
  unfold IsDotSegment
  infer_instance

theorem dots?_spelling {a : List Char} (h : a ∈ dotSpellings) (rest : List Char) :
    dots? (a ++ rest) = (dots? rest).map (· + 1) := by
  simp only [dotSpellings, List.mem_cons, List.not_mem_nil, or_false] at h
  rcases h with rfl | rfl | rfl <;> rfl

/-- A text of `n` dots, in any spellings. -/
def IsDots (n : Nat) (s : List Char) : Prop :=
  ∃ dots : List (List Char), (∀ a ∈ dots, a ∈ dotSpellings) ∧ dots.flatten = s ∧ dots.length = n

theorem IsDots.append {n : Nat} {a rest : List Char} (ha : a ∈ dotSpellings) (h : IsDots n rest) :
    IsDots (n + 1) (a ++ rest) := by
  obtain ⟨dots, hdots, rfl, rfl⟩ := h
  exact ⟨a :: dots, List.forall_mem_cons.mpr ⟨ha, hdots⟩, rfl, rfl⟩

/-- **Dots are counted** in all their spellings. -/
theorem dots?_eq_some_iff {s : List Char} {n : Nat} : dots? s = some n ↔ IsDots n s := by
  constructor
  · intro h
    fun_induction dots? s generalizing n with
    | case1 =>
      cases h
      exact ⟨[], List.forall_mem_nil _, rfl, rfl⟩
    | case2 rest ih =>
      obtain ⟨m, hm, rfl⟩ := Option.map_eq_some_iff.mp h
      exact IsDots.append (a := ['.']) (by decide) (ih hm)
    | case3 e rest he ih =>
      obtain ⟨m, hm, rfl⟩ := Option.map_eq_some_iff.mp h
      refine IsDots.append (a := ['%', '2', e]) ?_ (ih hm)
      rcases he with rfl | rfl <;> decide
    | case4 | case5 => cases h
  · rintro ⟨dots, hdots, rfl, rfl⟩
    induction dots with
    | nil => rfl
    | cons a dots ih =>
      obtain ⟨ha, hdots⟩ := List.forall_mem_cons.mp hdots
      rw [List.flatten_cons, dots?_spelling ha, ih hdots]
      rfl

/-- The pieces that a reader of paths takes for dot segments are the dot segments. -/
theorem isDotSegment_iff {s : List Char} : IsDotSegment s ↔ dots? s = some 1 ∨ dots? s = some 2 := by
  simp only [IsDotSegment, dots?_eq_some_iff, IsDots, List.length_eq_one_iff, List.length_eq_two]
  constructor
  · rintro (ha | ⟨a, ha, b, hb, rfl⟩)
    · exact Or.inl ⟨[s], by simpa using ha, by simp, s, rfl⟩
    · exact Or.inr ⟨[a, b], by simp [ha, hb], by simp, a, b, rfl⟩
  · rintro (⟨_, hdots, rfl, a, rfl⟩ | ⟨_, hdots, rfl, a, b, rfl⟩)
    · exact Or.inl (by simpa using hdots)
    · obtain ⟨ha, hdots⟩ := List.forall_mem_cons.mp hdots
      exact Or.inr ⟨a, ha, b, hdots b List.mem_cons_self, by simp⟩

theorem separates_false_of_mem_escapes :
    ∀ c ∈ Percent.escapes, SchemeKind.special.separates c = false :=
  Pieces.forall_mem_of_all (by decide)

/-- A piece that is no dot segment is kept in its written form. -/
theorem isSegment_encode {piece : List Char}
    (hplain : ∀ c ∈ piece, SchemeKind.special.separates c = false)
    (hdots : dots? piece ≠ some 1 ∧ dots? piece ≠ some 2) :
    IsSegment (Percent.encode EncodeSet.path piece) := by
  refine ⟨fun c hc => ⟨?_, ?_⟩, ?_⟩
  · exact Percent.not_mem_of_mem_encode path_false_of_mem_escapes c hc
  · rcases Percent.mem_encode hc with hc | hc
    · exact hplain c hc.1
    · exact separates_false_of_mem_escapes c hc
  · rw [dots?_encode]
    exact hdots

/-! ## Reading -/

theorem push_special (done : List (List Char)) (piece : List Char) :
    push .special done piece = Percent.encode EncodeSet.path piece :: done := by
  rw [push, if_neg fun h => absurd h.1 (by decide)]

theorem isSegment_of_mem_pop {done : List (List Char)} (h : ∀ s ∈ done, IsSegment s) :
    ∀ s ∈ pop done, IsSegment s := by
  unfold pop
  split
  · exact h
  · next s rest =>
    split
    · exact h
    · exact fun t ht => h t (List.mem_cons_of_mem _ ht)

/-- Segment after segment is put in place in its written form. -/
theorem isSegment_of_mem_resolve {done pieces : List (List Char)} (hdone : ∀ s ∈ done, IsSegment s)
    (hpieces : ∀ piece ∈ pieces, ∀ c ∈ piece, SchemeKind.special.separates c = false) :
    ∀ s ∈ resolve .special done pieces, IsSegment s := by
  have hempty : ∀ {done : List (List Char)}, (∀ s ∈ done, IsSegment s) →
      ∀ s ∈ [] :: done, IsSegment s := fun h => List.forall_mem_cons.mpr ⟨isSegment_nil, h⟩
  have hpush : ∀ {done : List (List Char)} {piece : List Char}, (∀ s ∈ done, IsSegment s) →
      (∀ c ∈ piece, SchemeKind.special.separates c = false) → dots? piece ≠ some 1 →
      dots? piece ≠ some 2 → ∀ s ∈ push .special done piece, IsSegment s := by
    intro done piece hdone hplain hone htwo
    rw [push_special]
    exact List.forall_mem_cons.mpr ⟨isSegment_encode hplain ⟨hone, htwo⟩, hdone⟩
  fun_induction resolve .special done pieces with
  | case1 done => exact hdone
  | case2 done piece hdots => exact hempty hdone
  | case3 done piece hdots => exact hempty (isSegment_of_mem_pop hdone)
  | case4 done piece hone htwo => exact hpush hdone (hpieces piece List.mem_cons_self) hone htwo
  | case5 done piece rest hrest hdots ih =>
    exact ih hdone fun p hp => hpieces p (List.mem_cons_of_mem _ hp)
  | case6 done piece rest hrest hdots ih =>
    exact ih (isSegment_of_mem_pop hdone) fun p hp => hpieces p (List.mem_cons_of_mem _ hp)
  | case7 done piece rest hrest hone htwo ih =>
    exact ih (hpush hdone (hpieces piece List.mem_cons_self) hone htwo)
      fun p hp => hpieces p (List.mem_cons_of_mem _ hp)

/-- The last piece leaves a segment. -/
theorem resolve_ne_nil {done pieces : List (List Char)} (h : pieces ≠ []) :
    resolve .special done pieces ≠ [] := by
  fun_induction resolve .special done pieces with
  | case1 done => exact absurd rfl h
  | case2 | case3 => exact List.cons_ne_nil _ _
  | case4 done piece hone htwo =>
    rw [push_special]
    exact List.cons_ne_nil _ _
  | case5 done piece rest hrest hdots ih | case6 done piece rest hrest hdots ih =>
    exact ih fun hnil => hrest (by rw [hnil])
  | case7 done piece rest hrest hone htwo ih => exact ih fun hnil => hrest (by rw [hnil])

theorem read_special (base : List (List Char)) (text : List Char) :
    read .special base text
      = (resolve .special base.reverse (text.splitOnP SchemeKind.special.separates)).reverse := by
  rw [read, if_neg (by decide)]

/-- **What is read of a path is segments in their written form.** -/
theorem isSegment_of_mem_read {base : List (List Char)} (hbase : ∀ s ∈ base, IsSegment s)
    (text : List Char) : ∀ s ∈ read .special base text, IsSegment s := by
  rw [read_special]
  intro s hs
  refine isSegment_of_mem_resolve (fun s hs => hbase s (List.mem_reverse.mp hs))
    (fun piece hpiece c hc => ?_) s (List.mem_reverse.mp hs)
  exact (Pieces.of_mem_splitOnP hpiece c hc).2

theorem read_ne_nil (base : List (List Char)) (text : List Char) : read .special base text ≠ [] := by
  rw [read_special, ne_eq, List.reverse_eq_nil_iff]
  exact resolve_ne_nil (List.splitOnP_ne_nil _ _)

/-! ## Reading again -/

/-- Pieces that are no dot segments are put in place one behind the other. -/
theorem resolve_of_notDots {done pieces : List (List Char)}
    (h : ∀ piece ∈ pieces, dots? piece ≠ some 1 ∧ dots? piece ≠ some 2) :
    resolve .special done pieces
      = (pieces.map (Percent.encode EncodeSet.path)).reverse ++ done := by
  fun_induction resolve .special done pieces with
  | case1 done => rfl
  | case2 done piece hdots => exact absurd hdots (h piece List.mem_cons_self).1
  | case3 done piece hdots => exact absurd hdots (h piece List.mem_cons_self).2
  | case4 done piece => exact push_special done piece
  | case5 done piece rest hrest hdots => exact absurd hdots (h piece List.mem_cons_self).1
  | case6 done piece rest hrest hdots => exact absurd hdots (h piece List.mem_cons_self).2
  | case7 done piece rest hrest hone htwo ih =>
    rw [ih fun s hs => h s (List.mem_cons_of_mem _ hs), push_special, List.map_cons,
      List.reverse_cons, List.append_assoc, List.singleton_append]

/-- Segments in their written form are put in place as they are. -/
theorem resolve_of_isSegment {done segments : List (List Char)}
    (h : ∀ s ∈ segments, IsSegment s) :
    resolve .special done segments = segments.reverse ++ done := by
  have hencode : segments.map (Percent.encode EncodeSet.path) = segments.map id :=
    List.map_congr_left fun s hs => Percent.encode_eq_self fun c hc => ((h s hs).chars c hc).1
  rw [resolve_of_notDots fun s hs => (h s hs).notDots, hencode, List.map_id]

/-- The text of segments is cut into them. -/
theorem splitOnP_text {s : List Char} {segments : List (List Char)}
    (h : ∀ t ∈ s :: segments, IsSegment t) :
    (s ++ text segments).splitOnP SchemeKind.special.separates = s :: segments := by
  have hs : ∀ c ∈ s, SchemeKind.special.separates c = false :=
    fun c hc => ((h s List.mem_cons_self).chars c hc).2
  induction segments generalizing s with
  | nil => rw [text, List.flatMap_nil, List.append_nil, List.splitOnP_eq_singleton hs]
  | cons t segments ih =>
    have hrest : ∀ r ∈ t :: segments, IsSegment r := fun r hr => h r (List.mem_cons_of_mem _ hr)
    have ht : ∀ c ∈ t, SchemeKind.special.separates c = false :=
      fun c hc => ((hrest t List.mem_cons_self).chars c hc).2
    have hsplit := ih hrest ht
    rw [text] at hsplit
    rw [text, List.flatMap_cons, List.cons_append, List.splitOnP_append_cons _ _ (by decide),
      List.splitOnP_eq_singleton hs, hsplit]
    rfl

/-- **Segments in their written form are read as themselves.** -/
theorem rootedAt_text {segments : List (List Char)} (hne : segments ≠ [])
    (h : ∀ s ∈ segments, IsSegment s) : Url.rootedAt .special (text segments) = segments := by
  obtain ⟨s, segments, rfl⟩ := List.exists_cons_of_ne_nil hne
  have htext : text (s :: segments) = '/' :: (s ++ text segments) := by
    rw [text, List.flatMap_cons, List.cons_append]
    rfl
  rw [htext, Url.rootedAt, if_pos (by decide), read_special, splitOnP_text h,
    resolve_of_isSegment h, List.reverse_nil, List.append_nil, List.reverse_reverse]

/-- What stands in the place of a path is read as segments in their written form. -/
theorem isSegment_of_mem_rootedAt (text : List Char) :
    ∀ s ∈ Url.rootedAt .special text, IsSegment s := by
  unfold Url.rootedAt
  split
  · split <;> exact isSegment_of_mem_read (List.forall_mem_nil _) _
  · exact isSegment_of_mem_read (List.forall_mem_nil _) _

theorem slash_not_mem_of_mem_rootedAt (text : List Char) :
    ∀ s ∈ Url.rootedAt .special text, '/' ∉ s :=
  fun s hs hc => absurd ((isSegment_of_mem_rootedAt text s hs).chars '/' hc).2 (by decide)

theorem rootedAt_ne_nil (text : List Char) : Url.rootedAt .special text ≠ [] := by
  unfold Url.rootedAt
  split
  · split <;> exact read_ne_nil _ _
  · exact read_ne_nil _ _

end SecretClient.Segment
