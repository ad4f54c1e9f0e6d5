import Mathlib.Data.List.TakeWhile
import SecretClient.Text.Blank

/-!
# Trimmed texts

What is left of a text without the characters at its ends: of all ways to split them off, the one that
leaves none of them at an end.

* `trimWhile_eq_iff` : what `trimWhile` leaves, said without it
-/

namespace SecretClient.Blank

theorem isBlank_of_isWhitespace {c : Char} (h : c.isWhitespace = true) : isBlank c = true := by
  simp only [Char.isWhitespace, Bool.or_eq_true, decide_eq_true_eq] at h
  rcases h with ((rfl | rfl) | rfl) | rfl <;> decide

variable {p : Char → Bool} {text core : List Char}

/-- None of the characters is at an end of the text. -/
structure Bare (p : Char → Bool) (text : List Char) : Prop where
  first : ∀ c ∈ text.head?, p c = false
  last : ∀ c ∈ text.getLast?, p c = false

/-- The text is `core` with such characters around it, and none are left at the ends of `core`. -/
inductive Trimmed (p : Char → Bool) : List Char → List Char → Prop
  | intro {before core after : List Char} : (∀ c ∈ before, p c = true) →
      (∀ c ∈ after, p c = true) → Bare p core → Trimmed p (before ++ core ++ after) core

theorem Trimmed.exists_around (h : Trimmed p text core) :
    ∃ before after, text = before ++ core ++ after ∧ (∀ c ∈ before, p c = true) ∧
      (∀ c ∈ after, p c = true) ∧ Bare p core := by
  cases h with
  | intro hbefore hafter hbare => exact ⟨_, _, rfl, hbefore, hafter, hbare⟩

theorem dropWhile_of_first (h : ∀ c ∈ text.head?, p c = false) : text.dropWhile p = text := by
  cases text with
  | nil => rfl
  | cons c text => exact List.dropWhile_cons_of_neg (by rw [h c rfl]; exact Bool.false_ne_true)

theorem dropWhile_append_of_first {before : List Char} (hbefore : ∀ c ∈ before, p c = true)
    (h : ∀ c ∈ text.head?, p c = false) : (before ++ text).dropWhile p = text := by
  rw [List.dropWhile_append_of_pos hbefore, dropWhile_of_first h]

theorem head?_dropWhile (text : List Char) : ∀ c ∈ (text.dropWhile p).head?, p c = false := by
  intro c hc
  have hhead := List.head?_dropWhile_not p text
  rw [Option.mem_def.mp hc] at hhead
  exact hhead

theorem Trimmed.eq_trimWhile (h : Trimmed p text core) : core = trimWhile p text := by
  cases h with
  | @intro before core after hbefore hafter hbare =>
    unfold trimWhile
    cases core with
    | nil =>
      -- all of the text is such characters
      have hall : ∀ c ∈ before ++ [] ++ after, p c = true := List.forall_mem_append.mpr
        ⟨List.forall_mem_append.mpr ⟨hbefore, List.forall_mem_nil _⟩, hafter⟩
      rw [List.dropWhile_eq_nil_iff.mpr hall]
      rfl
    | cons c core =>
      have hfirst : ∀ d ∈ (c :: core ++ after).head?, p d = false := hbare.first
      have hlast : ∀ d ∈ (c :: core).reverse.head?, p d = false := by
        rw [List.head?_reverse]
        exact hbare.last
      rw [List.append_assoc, dropWhile_append_of_first hbefore hfirst, List.reverse_append,
        dropWhile_append_of_first (fun d hd => hafter d (List.mem_reverse.mp hd)) hlast,
        List.reverse_reverse]

theorem trimmed_trimWhile (p : Char → Bool) (text : List Char) :
    Trimmed p text (trimWhile p text) := by
  unfold trimWhile
  generalize hmiddle : text.dropWhile p = middle
  have hfirst : ∀ c ∈ middle.head?, p c = false := hmiddle ▸ head?_dropWhile text
  have hsplit : middle
      = (middle.reverse.dropWhile p).reverse ++ (middle.reverse.takeWhile p).reverse := by
    rw [← List.reverse_append, List.takeWhile_append_dropWhile, List.reverse_reverse]
  have hbare : Bare p (middle.reverse.dropWhile p).reverse := by
    constructor
    · intro c hc
      refine hfirst c ?_
      rw [hsplit, List.head?_append, Option.mem_def.mp hc]
      rfl
    · rw [List.getLast?_reverse]
      exact head?_dropWhile middle.reverse
  have htext : text = text.takeWhile p ++ (middle.reverse.dropWhile p).reverse
      ++ (middle.reverse.takeWhile p).reverse := by
    rw [List.append_assoc, ← hsplit, ← hmiddle, List.takeWhile_append_dropWhile]
  have hwhile : ∀ (l : List Char), ∀ c ∈ l.takeWhile p, p c = true :=
    fun l c hc => List.mem_takeWhile_imp hc
  have htrimmed := Trimmed.intro (hwhile text)
    (fun c hc => hwhile middle.reverse c (List.mem_reverse.mp hc)) hbare
  rwa [← htext] at htrimmed

/-- **What is left between the characters at the ends of a text.** -/
theorem trimWhile_eq_iff : trimWhile p text = core ↔ Trimmed p text core := by
  constructor
  · rintro rfl
    exact trimmed_trimWhile p text
  · intro h
    exact h.eq_trimWhile.symm

end SecretClient.Blank
