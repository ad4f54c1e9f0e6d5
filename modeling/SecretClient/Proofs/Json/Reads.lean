import Mathlib.Data.List.DropRight
import SecretClient.Json.Document

/-!
# What readers read

`Reads p s a t` says that the reader `p` reads `a` from the input `s` and leaves `t`. The rests that
readers return carry a proof that they are shorter, and failures carry their place; `outcome` forgets
both. There is one equation for the outcome of each way of combining readers, and from it an
equivalence that says what the combination reads.
-/

namespace SecretClient.Json

variable {α β κ : Type}

/-- What was read and what is left, or why reading failed. -/
def outcome {s : Input} : Except Fault (α × Rest s) → Except Cause (α × Input)
  | .ok (a, r) => .ok (a, r.1)
  | .error e => .error e.cause

/-- The reader reads `a` from the front of `s` and leaves `t`. -/
def Reads (p : Reader α) (s : Input) (a : α) (t : Input) : Prop := outcome (p s) = .ok (a, t)

/-- Whether a container ends, and what is left then or where its next item begins. -/
def nextOutcome {s : Input} : Except Fault (Next s) → Except Cause (Bool × Input)
  | .ok (.closed r) => .ok (true, r.1)
  | .ok (.begins b) => .ok (false, b.1)
  | .error e => .error e.cause

/-- The container ends in front of `s`, and `t` is left behind its end. -/
def Closes (next : Bool → (s : Input) → Except Fault (Next s)) (first : Bool) (s t : Input) : Prop :=
  nextOutcome (next first s) = .ok (true, t)

/-- The container goes on in front of `s`, with an item at the beginning of `t`. -/
def Begins (next : Bool → (s : Input) → Except Fault (Next s)) (first : Bool) (s t : Input) : Prop :=
  nextOutcome (next first s) = .ok (false, t)

theorem Reads.exists_ok {p : Reader α} {s t : Input} {a : α} (h : Reads p s a t) :
    ∃ r : Rest s, p s = .ok (a, r) ∧ r.1 = t := by
  unfold Reads at h
  cases hp : p s with
  | error e => rw [hp] at h; cases h
  | ok result =>
    obtain ⟨b, r⟩ := result
    rw [hp] at h
    cases h
    exact ⟨r, rfl, rfl⟩

theorem reads_of_ok {p : Reader α} {s : Input} {a : α} {r : Rest s} (h : p s = .ok (a, r)) :
    Reads p s a r.1 := by
  unfold Reads
  rw [h]
  rfl

/-- What is read and what is left is determined by the input. -/
theorem Reads.unique {p : Reader α} {s t u : Input} {a b : α} (h : Reads p s a t)
    (h' : Reads p s b u) : a = b ∧ t = u := by
  have heq := h.symm.trans h'
  rw [Except.ok.injEq, Prod.mk.injEq] at heq
  exact heq

/-! ## Steps around a reader -/

theorem map_eq_ok_iff {ε : Type} {f : α → β} {x : Except ε α} {b : β} :
    x.map f = .ok b ↔ ∃ a, x = .ok a ∧ f a = b := by
  cases x <;> simp [Except.map]

@[simp] theorem outcome_mapValue {s : Input} (f : α → β) (x : Except Fault (α × Rest s)) :
    outcome (mapValue f x) = (outcome x).map fun (a, t) => (f a, t) := by
  cases x <;> rfl

theorem reads_mapValue {f : α → β} {p : Reader α} {s t : Input} {b : β} :
    Reads (fun s => mapValue f (p s)) s b t ↔ ∃ a, Reads p s a t ∧ f a = b := by
  simp [Reads, map_eq_ok_iff]

theorem outcome_padded (p : Reader α) (s : Input) :
    outcome (p.padded s) = outcome (p (s.dropWhile isBlank)) := by
  unfold Reader.padded
  change _ = outcome (p (skipBlanks s).1)
  cases p (skipBlanks s).1 <;> rfl

theorem reads_padded {p : Reader α} {s t : Input} {a : α} :
    Reads p.padded s a t ↔ Reads p (s.dropWhile isBlank) a t := by
  rw [Reads, outcome_padded, Reads]

theorem outcome_afterFirst (p : Reader α) (c : Option Char) (s : Input) :
    outcome (afterFirst p (c :: s)) = outcome (p s) := by
  unfold afterFirst
  dsimp only
  cases p s <;> rfl

theorem reads_afterFirst {p : Reader α} {c : Option Char} {s t : Input} {a : α} :
    Reads (afterFirst p) (c :: s) a t ↔ Reads p s a t := by
  rw [Reads, outcome_afterFirst, Reads]

/-! ## Words -/

theorem word_ok_iff {w : List Char} {s t : Input} :
    (∃ r : Tail s, word w s = .ok r ∧ r.1 = t) ↔ s = w.map some ++ t := by
  induction w generalizing s with
  | nil => simp [word, Tail.all]
  | cons c w ih =>
    cases s with
    | nil => simp [word]
    | cons d s =>
      rw [word]
      by_cases hd : d = some c
      · subst hd
        rw [if_pos rfl, List.map_cons, List.cons_append, List.cons.injEq, ← ih]
        cases word w s with
        | error e => simp
        | ok r => simp
      · rw [if_neg hd]
        simp [hd]

theorem reads_wordReader {w : List Char} {value a : α} {c : Option Char} {s t : Input} :
    Reads (wordReader w value) (c :: s) a t ↔ a = value ∧ s = w.map some ++ t := by
  rw [← word_ok_iff, Reads, wordReader]
  cases word w s with
  | error e => simp [outcome]
  | ok r => simp [outcome, Rest.withBehind, eq_comm]

theorem reads_word (w : List Char) (value : α) (c : Option Char) (t : Input) :
    Reads (wordReader w value) (c :: (w.map some ++ t)) value t :=
  reads_wordReader.mpr ⟨rfl, rfl⟩

/-! ## Loops -/

theorem outcome_pieces (p : Reader (Option α)) (s : Input) :
    outcome (pieces p s) =
      match outcome (p s) with
      | .error e => .error e
      | .ok (none, t) => .ok ([], t)
      | .ok (some a, r) => (outcome (pieces p r)).map fun (as, t) => (a :: as, t) := by
  rw [pieces]
  cases p s with
  | error e => rfl
  | ok result =>
    obtain ⟨_ | a, r⟩ := result
    · rfl
    · simp only [outcome]
      cases pieces p r.1 <;> rfl

theorem reads_pieces {p : Reader (Option α)} {s t : Input} {as : List α} :
    Reads (pieces p) s as t ↔
      (as = [] ∧ Reads p s none t) ∨
      ∃ a rest r, as = a :: rest ∧ Reads p s (some a) r ∧ Reads (pieces p) r rest t := by
  simp only [Reads]
  rw [outcome_pieces]
  rcases outcome (p s) with _ | ⟨_ | a, r⟩
  · simp
  · simp [eq_comm]
  · rw [map_eq_ok_iff]
    constructor
    · rintro ⟨⟨rest, u⟩, h, heq⟩
      cases heq
      exact Or.inr ⟨a, rest, r, rfl, rfl, h⟩
    · rintro (⟨-, h⟩ | ⟨_, rest, _, rfl, h, hrest⟩)
      · cases h
      · cases h
        exact ⟨(rest, t), hrest, rfl⟩

theorem outcome_items (next : Bool → (s : Input) → Except Fault (Next s)) (p : Reader α)
    (first : Bool) (s : Input) :
    outcome (items next p first s) =
      match nextOutcome (next first s) with
      | .error e => .error e
      | .ok (true, t) => .ok ([], t)
      | .ok (false, b) =>
        match outcome (p b) with
        | .error e => .error e
        | .ok (a, r) => (outcome (items next p false r)).map fun (as, t) => (a :: as, t) := by
  rw [items]
  cases next first s with
  | error e => rfl
  | ok found =>
    cases found with
    | closed r => rfl
    | begins b =>
      simp only [nextOutcome]
      cases p b.1 with
      | error e => rfl
      | ok result =>
        simp only [outcome]
        cases items next p false result.2.1 <;> rfl

theorem reads_items {next : Bool → (s : Input) → Except Fault (Next s)} {p : Reader α}
    {first : Bool} {s t : Input} {as : List α} :
    Reads (items next p first) s as t ↔
      (as = [] ∧ Closes next first s t) ∨
      ∃ a rest b r, as = a :: rest ∧ Begins next first s b ∧ Reads p b a r ∧
        Reads (items next p false) r rest t := by
  simp only [Reads, Closes, Begins]
  rw [outcome_items]
  rcases nextOutcome (next first s) with _ | ⟨_ | _, b⟩
  · simp
  · dsimp only
    constructor
    · intro h
      split at h
      · cases h
      · next a r hread =>
        obtain ⟨⟨rest, u⟩, hrest, heq⟩ := map_eq_ok_iff.mp h
        cases heq
        exact Or.inr ⟨a, rest, b, r, rfl, rfl, hread, hrest⟩
    · rintro (⟨-, h⟩ | ⟨a, rest, _, r, rfl, h, hread, hrest⟩)
      · cases h
      · cases h
        rw [hread]
        exact map_eq_ok_iff.mpr ⟨(rest, t), hrest, rfl⟩
  · simp [eq_comm]

/-- What holds of every item that is read holds of all items of a container. -/
theorem forall_of_reads_items {next : Bool → (s : Input) → Except Fault (Next s)} {p : Reader α}
    {P : α → Prop} (hitem : ∀ s a t, Reads p s a t → P a) {as : List α} :
    ∀ {first : Bool} {s t : Input}, Reads (items next p first) s as t → ∀ a ∈ as, P a := by
  induction as with
  | nil => intro _ _ _ _ a ha; exact absurd ha List.not_mem_nil
  | cons a as ih =>
    intro first s t h
    rcases reads_items.mp h with ⟨hnil, -⟩ | ⟨b, rest, u, r, heq, -, hread, hrest⟩
    · cases hnil
    · cases heq
      intro c hc
      rcases List.mem_cons.mp hc with rfl | hc
      · exact hitem _ _ _ hread
      · exact ih hrest c hc

/-! ## Elements and members -/

theorem nextOutcome_nextElement (first : Bool) (s : Input) :
    nextOutcome (nextElement first s) =
      match s.dropWhile isBlank with
      | [] => .error .endInList
      | c :: r =>
        if c = some ']' then .ok (true, r)
        else if first then .ok (false, c :: r)
        else if c = some ',' then
          match r.dropWhile isBlank with
          | [] => .error .endInValue
          | d :: t => if d = some ']' then .error .trailingComma else .ok (false, d :: t)
        else .error .expectedListCommaOrEnd := by
  have hskip : ∀ s : Input, s.dropWhile isBlank = (skipBlanks s).1 := fun _ => rfl
  unfold nextElement
  rw [hskip]
  obtain ⟨_ | ⟨c, r⟩, h⟩ := skipBlanks s
  · rfl
  · dsimp only
    split
    · rfl
    · split
      · rfl
      · split
        · rw [hskip]
          obtain ⟨_ | ⟨d, t⟩, h'⟩ := skipBlanks r
          · rfl
          · dsimp only
            split <;> rfl
        · rfl

theorem nextOutcome_nextKey (first : Bool) (s : Input) :
    nextOutcome (nextKey first s) =
      match s.dropWhile isBlank with
      | [] => .error .endInObject
      | c :: r =>
        if c = some '\x7d' then .ok (true, r)
        else if first then if c = some '"' then .ok (false, c :: r) else .error .keyNotString
        else if c = some ',' then
          match r.dropWhile isBlank with
          | [] => .error .endInValue
          | d :: t =>
            if d = some '"' then .ok (false, d :: t)
            else if d = some '\x7d' then .error .trailingComma
            else .error .keyNotString
        else .error .expectedObjectCommaOrEnd := by
  have hskip : ∀ s : Input, s.dropWhile isBlank = (skipBlanks s).1 := fun _ => rfl
  unfold nextKey
  rw [hskip]
  obtain ⟨_ | ⟨c, r⟩, h⟩ := skipBlanks s
  · rfl
  · dsimp only
    split
    · rfl
    · split
      · split <;> rfl
      · split
        · rw [hskip]
          obtain ⟨_ | ⟨d, t⟩, h'⟩ := skipBlanks r
          · rfl
          · dsimp only
            split
            · rfl
            · split <;> rfl
        · rfl

theorem colon_ok_iff {s t : Input} :
    (∃ r : Rest s, colon s = .ok r ∧ r.1 = t) ↔ s.dropWhile isBlank = some ':' :: t := by
  unfold colon
  change _ ↔ (skipBlanks s).1 = _
  obtain ⟨_ | ⟨c, r⟩, h⟩ := skipBlanks s
  · simp
  · by_cases hc : c = some ':'
    · simp [hc, eq_comm]
    · simp [hc]

/-- Behind its key and the colon, a member comes out as its value does. -/
theorem outcome_member {key : Reader κ} {value : κ → Reader α} {s r u : Input} {k : κ}
    (hkey : Reads key s k r) (hcolon : r.dropWhile isBlank = some ':' :: u) :
    outcome (member key value s) = (outcome (value k u)).map fun (a, t) => ((k, a), t) := by
  obtain ⟨r, hr, rfl⟩ := hkey.exists_ok
  obtain ⟨u, hu, rfl⟩ := colon_ok_iff.mpr hcolon
  unfold member
  rw [hr]
  dsimp only
  rw [hu]
  dsimp only
  cases value k u.1 <;> rfl

theorem reads_member {key : Reader κ} {value : κ → Reader α} {s t : Input} {m : κ × α} :
    Reads (member key value) s m t ↔
      ∃ r u, Reads key s m.1 r ∧ r.dropWhile isBlank = some ':' :: u ∧
        Reads (value m.1) u m.2 t := by
  obtain ⟨k, a⟩ := m
  constructor
  · intro h
    unfold Reads member at h
    cases hkey : key s with
    | error e => rw [hkey] at h; cases h
    | ok result =>
      rw [hkey] at h
      dsimp only at h
      cases hcolon : colon result.2.1 with
      | error e => rw [hcolon] at h; cases h
      | ok u =>
        rw [hcolon] at h
        dsimp only at h
        cases hvalue : value result.1 u.1 with
        | error e => rw [hvalue] at h; cases h
        | ok read =>
          rw [hvalue] at h
          cases h
          exact ⟨_, _, reads_of_ok hkey, colon_ok_iff.mp ⟨u, hcolon, rfl⟩, reads_of_ok hvalue⟩
  · rintro ⟨r, u, hkey, hcolon, hvalue⟩
    rw [Reads, outcome_member hkey hcolon]
    exact map_eq_ok_iff.mpr ⟨_, hvalue, rfl⟩

/-! ## Values and whole texts -/

/-- Characters with which other things than numbers begin or end. -/
def punctuation : List Char := ['n', 't', 'f', '"', '[', '\x7b', ' ', '\t', '\n', '\r', ']']

theorem ne_of_beginsNumber {c : Option Char} (hc : beginsNumber c = true) {d : Char}
    (h : d ∈ punctuation) : c ≠ some d := by
  have hall : (punctuation.all fun d => !beginsNumber (some d)) = true := by decide
  rintro rfl
  have hd := List.all_eq_true.mp hall d h
  rw [hc] at hd
  cases hd

theorem isBlank_of_beginsNumber {c : Option Char} (hc : beginsNumber c = true) :
    isBlank c = false := by
  cases c with
  | none => rfl
  | some c =>
    have hne : ∀ {d}, d ∈ punctuation → c ≠ d :=
      fun hd heq => ne_of_beginsNumber hc hd (congrArg some heq)
    unfold isBlank
    simp only [Bool.or_eq_false_iff, beq_eq_false_iff_ne]
    exact ⟨⟨⟨hne (by decide), hne (by decide)⟩, hne (by decide)⟩, hne (by decide)⟩

theorem outcome_reader_dropWhile (parts : Parts α) (s : Input) :
    outcome (parts.reader s) = outcome (parts.reader (s.dropWhile isBlank)) := by
  unfold Parts.reader
  rw [outcome_padded, outcome_padded, List.dropWhile_idempotent]

theorem outcome_reader_string (parts : Parts α) (s : Input) :
    outcome (parts.reader (some '"' :: s)) = outcome (parts.string s) := by
  unfold Parts.reader
  rw [outcome_padded]
  exact outcome_afterFirst parts.string (some '"') s

theorem outcome_reader_array (parts : Parts α) (s : Input) :
    outcome (parts.reader (some '[' :: s)) = outcome (parts.array s) := by
  unfold Parts.reader
  rw [outcome_padded]
  exact outcome_afterFirst parts.array (some '[') s

theorem outcome_reader_object (parts : Parts α) (s : Input) :
    outcome (parts.reader (some '\x7b' :: s)) = outcome (parts.object s) := by
  unfold Parts.reader
  rw [outcome_padded]
  exact outcome_afterFirst parts.object (some '\x7b') s

theorem outcome_reader_number (parts : Parts α) {c : Option Char} (hc : beginsNumber c = true)
    (s : Input) : outcome (parts.reader (c :: s)) = outcome (parts.number (c :: s)) := by
  unfold Parts.reader
  rw [outcome_padded, List.dropWhile_cons_of_neg (by rw [isBlank_of_beginsNumber hc]; simp)]
  dsimp only
  rw [if_neg (ne_of_beginsNumber hc (by decide)), if_neg (ne_of_beginsNumber hc (by decide)),
    if_neg (ne_of_beginsNumber hc (by decide)), if_neg (ne_of_beginsNumber hc (by decide)),
    if_neg (ne_of_beginsNumber hc (by decide)), if_neg (ne_of_beginsNumber hc (by decide)),
    if_pos hc]

/-- What the parts of a value read, by the character that the value begins with. -/
inductive Parts.ReadsFrom (parts : Parts α) : Input → α → Input → Prop
  | null {t : Input} : ReadsFrom parts (some 'n' :: ("ull".toList.map some ++ t)) parts.null t
  | true {t : Input} : ReadsFrom parts (some 't' :: ("rue".toList.map some ++ t)) (parts.bool true) t
  | false {t : Input} :
      ReadsFrom parts (some 'f' :: ("alse".toList.map some ++ t)) (parts.bool false) t
  | string {s t : Input} {a : α} : Reads parts.string s a t → ReadsFrom parts (some '"' :: s) a t
  | array {s t : Input} {a : α} : Reads parts.array s a t → ReadsFrom parts (some '[' :: s) a t
  | object {s t : Input} {a : α} : Reads parts.object s a t → ReadsFrom parts (some '\x7b' :: s) a t
  | number {c : Option Char} {s t : Input} {a : α} : beginsNumber c = true →
      Reads parts.number (c :: s) a t → ReadsFrom parts (c :: s) a t

/-- The character that a value begins with decides which of its parts is read. -/
theorem reads_parts {parts : Parts α} {s t : Input} {a : α} :
    Reads parts.reader s a t ↔ parts.ReadsFrom (s.dropWhile isBlank) a t := by
  constructor
  · unfold Parts.reader
    rw [reads_padded]
    generalize s.dropWhile isBlank = s
    intro h
    -- the first characters are tried in the order in which the reader tries them
    cases s with
    | nil => cases h
    | cons c r =>
      unfold Reads at h
      dsimp only at h
      split at h
      · next hc =>
        obtain ⟨rfl, rfl⟩ := reads_wordReader.mp h
        exact hc ▸ .null
      split at h
      · next hc =>
        obtain ⟨rfl, rfl⟩ := reads_wordReader.mp h
        exact hc ▸ .true
      split at h
      · next hc =>
        obtain ⟨rfl, rfl⟩ := reads_wordReader.mp h
        exact hc ▸ .false
      split at h
      · next hc => exact hc ▸ .string (reads_afterFirst.mp h)
      split at h
      · next hc => exact hc ▸ .array (reads_afterFirst.mp h)
      split at h
      · next hc => exact hc ▸ .object (reads_afterFirst.mp h)
      split at h
      · next hc => exact .number hc h
      · cases h
  · rw [Reads, outcome_reader_dropWhile]
    generalize s.dropWhile isBlank = s
    intro h
    cases h with
    | null => exact reads_padded.mpr (reads_word "ull".toList parts.null (some 'n') t)
    | true => exact reads_padded.mpr (reads_word "rue".toList (parts.bool Bool.true) (some 't') t)
    | false => exact reads_padded.mpr (reads_word "alse".toList (parts.bool Bool.false) (some 'f') t)
    | string h => exact (outcome_reader_string parts _).trans h
    | array h => exact (outcome_reader_array parts _).trans h
    | object h => exact (outcome_reader_object parts _).trans h
    | number hc h => exact (outcome_reader_number parts hc _).trans h

theorem whole_ok_iff {p : Reader α} {s : Input} {a : α} :
    whole p s = .ok a ↔ ∃ t, Reads p s a t ∧ t.dropWhile isBlank = [] := by
  unfold whole Reads
  cases p s with
  | error e => simp [outcome]
  | ok result =>
    obtain ⟨b, r⟩ := result
    simp only [outcome, Except.ok.injEq, Prod.mk.injEq]
    change _ ↔ ∃ t, (b = a ∧ r.1 = t) ∧ (skipBlanks t).1 = []
    constructor
    · intro h
      split at h
      · next hempty =>
        cases h
        exact ⟨r.1, ⟨rfl, rfl⟩, hempty⟩
      · cases h
    · rintro ⟨_, ⟨rfl, rfl⟩, hempty⟩
      rw [hempty]

end SecretClient.Json
