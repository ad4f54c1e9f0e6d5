import SecretClient.Proofs.Url.Segment

/-!
# Paths that lead out of a directory

A path that is read behind a segment stays behind it as long as it takes no more segments away than it has
put in place. One `..` more takes the segment away, and from there on the path is read as from the root.

* `resolve_of_outside?_eq_none`, `resolve_of_outside?_eq_some` : what becomes of a path behind a segment
* `text_begins_iff` : which segment the text of a path begins with
-/

namespace SecretClient.Segment

variable {done pieces rest below : List (List Char)} {piece s : List Char}

/-! ## Piece by piece -/

/-- The segments behind one more piece of a path, last one first. -/
def step (done : List (List Char)) (piece : List Char) : List (List Char) :=
  match dots? piece with
  | some 1 => done
  | some 2 => pop done
  | _ => push .special done piece

/-- The segments at the end of a path: a dot segment there leaves an empty one. -/
def close (piece : List Char) (done : List (List Char)) : List (List Char) :=
  match dots? piece with
  | some 1 => [] :: done
  | some 2 => [] :: done
  | _ => done

theorem step_of_one (h : dots? piece = some 1) (done : List (List Char)) : step done piece = done := by
  simp only [step, h]

theorem step_of_two (h : dots? piece = some 2) (done : List (List Char)) :
    step done piece = pop done := by
  simp only [step, h]

theorem step_of_notDots (h : dots? piece ≠ some 1 ∧ dots? piece ≠ some 2) (done : List (List Char)) :
    step done piece = Percent.encode EncodeSet.path piece :: done := by
  rw [← push_special]
  unfold step
  split
  · next hdots => exact absurd hdots h.1
  · next hdots => exact absurd hdots h.2
  · rfl

theorem close_of_notDots (h : dots? piece ≠ some 1 ∧ dots? piece ≠ some 2)
    (done : List (List Char)) : close piece done = done := by
  unfold close
  split
  · next hdots => exact absurd hdots h.1
  · next hdots => exact absurd hdots h.2
  · rfl

theorem close_of_dots (h : ¬ (dots? piece ≠ some 1 ∧ dots? piece ≠ some 2))
    (done : List (List Char)) : close piece done = [] :: done := by
  unfold close
  split
  · rfl
  · rfl
  · next hone htwo => exact absurd ⟨hone, htwo⟩ h

theorem resolve_singleton (done : List (List Char)) (piece : List Char) :
    resolve .special done [piece] = close piece (step done piece) := by
  rw [resolve, close, step]
  rcases dots? piece with _ | _ | _ | _ | _ <;> rfl

theorem resolve_cons (done : List (List Char)) (piece : List Char) (h : rest ≠ []) :
    resolve .special done (piece :: rest) = resolve .special (step done piece) rest := by
  rw [resolve, step]
  · rcases dots? piece with _ | _ | _ | _ | _ <;> rfl
  · exact h

/-- What is left of the pieces of a path behind the first one that leads out of where the path begins, if
one does. The segments that are there since the beginning are `done`, last one first. -/
def outside? (done : List (List Char)) : List (List Char) → Option (List (List Char))
  | [] => none
  | piece :: rest =>
    if dots? piece = some 2 ∧ done = [] then some rest else outside? (step done piece) rest

/-- The segments that pieces leave behind the root. If there are no pieces, the path ends there. -/
def fromRoot : List (List Char) → List (List Char)
  | [] => [[]]
  | piece :: rest => (resolve .special [] (piece :: rest)).reverse

/-! ## Behind a segment -/

theorem pop_append (h : done ≠ []) (below : List (List Char)) :
    pop (done ++ below) = pop done ++ below := by
  obtain ⟨s, done, rfl⟩ := List.exists_cons_of_ne_nil h
  rw [List.cons_append, pop, pop]
  split <;> rfl

theorem pop_singleton (h : isDrive [':', '|'] s = false) : pop [s] = [] := by
  rw [pop, if_neg (Bool.eq_false_iff.mp h)]

theorem step_append (h : ¬ (dots? piece = some 2 ∧ done = [])) (below : List (List Char)) :
    step (done ++ below) piece = step done piece ++ below := by
  unfold step
  split
  · rfl
  · next hdots => exact pop_append (fun hdone => h ⟨hdots, hdone⟩) below
  · rw [push_special, push_special, List.cons_append]

theorem close_append (piece : List Char) (done below : List (List Char)) :
    close piece (done ++ below) = close piece done ++ below := by
  unfold close
  split <;> rfl

/-- **A path that does not lead out** leaves what it stands behind. -/
theorem resolve_of_outside?_eq_none (h : outside? done pieces = none) (below : List (List Char)) :
    resolve .special (done ++ below) pieces = resolve .special done pieces ++ below := by
  induction pieces generalizing done with
  | nil => rfl
  | cons piece rest ih =>
    rw [outside?] at h
    split at h
    · cases h
    · next hinside =>
      -- a step looks at what is behind only if it takes away more than is there
      have hstep := step_append hinside below
      cases rest with
      | nil => rw [resolve_singleton, resolve_singleton, hstep, close_append]
      | cons next rest =>
        have hne : next :: rest ≠ [] := List.cons_ne_nil _ _
        rw [resolve_cons _ _ hne, resolve_cons _ _ hne, hstep, ih h]

/-- **A path that leads out** of one segment is read on from the root. -/
theorem resolve_of_outside?_eq_some (h : outside? done pieces = some rest)
    (hs : isDrive [':', '|'] s = false) :
    (resolve .special (done ++ [s]) pieces).reverse = fromRoot rest := by
  induction pieces generalizing done with
  | nil => cases h
  | cons piece pieces ih =>
    rw [outside?] at h
    split at h
    · next hout =>
      obtain ⟨hdots, rfl⟩ := hout
      obtain rfl := Option.some.inj h
      -- a drive letter would stay
      have hstep : step ([] ++ [s]) piece = [] := by
        rw [step, hdots, List.nil_append]
        exact pop_singleton hs
      cases pieces with
      | nil =>
        rw [resolve_singleton, hstep, close, hdots]
        rfl
      | cons next rest => rw [resolve_cons _ _ (List.cons_ne_nil _ _), hstep, fromRoot]
    · next hinside =>
      have hstep := step_append hinside [s]
      cases pieces with
      | nil => cases h
      | cons next pieces =>
        rw [resolve_cons _ _ (List.cons_ne_nil _ _), hstep]
        exact ih h

/-- A path without `..` does not lead out. -/
theorem outside?_eq_none (h : ∀ piece ∈ pieces, dots? piece ≠ some 2) :
    outside? done pieces = none := by
  induction pieces generalizing done with
  | nil => rfl
  | cons piece rest ih =>
    obtain ⟨hpiece, hrest⟩ := List.forall_mem_cons.mp h
    rw [outside?, if_neg fun hout => hpiece hout.1, ih hrest]

/-! ## The first segment -/

theorem ne_slash (h : '/' ∉ s) : ∀ c ∈ s, decide (c ≠ '/') = true :=
  fun _ hc => decide_eq_true fun heq => h (heq ▸ hc)

theorem takeWhile_text (h : '/' ∉ s) (segments : List (List Char)) :
    (s ++ text segments).takeWhile (· ≠ '/') = s := by
  cases segments with
  | nil => rw [text, List.flatMap_nil, List.append_nil, Pieces.takeWhile_eq_self (ne_slash h)]
  | cons t segments => exact Pieces.takeWhile_append_cons (ne_slash h) (by decide)

/-- **The text of segments begins with the first of them.** -/
theorem text_begins_iff {segments : List (List Char)} (hsegments : ∀ s ∈ segments, '/' ∉ s)
    {first : List Char} (hfirst : '/' ∉ first) :
    (text segments = '/' :: first ∨ '/' :: (first ++ ['/']) <+: text segments) ↔
      segments.head? = some first := by
  cases segments with
  | nil => simp [text]
  | cons s segments =>
    have hs := takeWhile_text (hsegments s List.mem_cons_self) segments
    have htext : text (s :: segments) = '/' :: (s ++ text segments) := rfl
    rw [htext, List.head?_cons, Option.some.injEq]
    constructor
    · rintro (heq | ⟨rest, heq⟩)
      · rw [(List.cons.inj heq).2, Pieces.takeWhile_eq_self (ne_slash hfirst)] at hs
        exact hs.symm
      · rw [List.cons_append] at heq
        rw [← (List.cons.inj heq).2, List.append_assoc, List.singleton_append,
          Pieces.takeWhile_append_cons (ne_slash hfirst) (by decide)] at hs
        exact hs.symm
    · rintro rfl
      cases segments with
      | nil => exact Or.inl (by rw [text, List.flatMap_nil, List.append_nil])
      | cons t segments =>
        refine Or.inr ⟨t ++ text segments, ?_⟩
        rw [List.cons_append, List.append_assoc]
        rfl

end SecretClient.Segment
