import SecretClient.Proofs.Json.Tree

/-!
# Mended texts

When bytes are decoded to a text, U+FFFD takes the place of what is no character. A reader finds it a
character like any other inside a string, and elsewhere as much of a fault as what was there before.
So what is read from a mended text is read from the text itself, with the strings that are no text in
the same places.

* `Mends` : two readers that read the same places of a text and of the mended one, and how what they
  read is related
* `mends_literal`, `mends_skippedTail`, `mends_stringTree` : the tokens
-/

namespace SecretClient.Json

variable {α β γ δ κ κ' : Type}

/-! ## Mended inputs -/

/-- An item with U+FFFD for what is no character. -/
def mend (o : Option Char) : Option Char := some (o.getD '\uFFFD')

/-- An input with U+FFFD for what is no character. -/
def mended (s : Input) : Input := s.map mend

theorem mended_cons (o : Option Char) (s : Input) : mended (o :: s) = mend o :: mended s := rfl

theorem mended_append (s t : Input) : mended (s ++ t) = mended s ++ mended t := List.map_append

theorem length_mended (s : Input) : (mended s).length = s.length := List.length_map _

theorem mended_ofChars (text : List Char) : mended (.ofChars text) = .ofChars text :=
  List.map_map

/-- What bytes are decoded to is their mended text. -/
theorem ofChars_lossy (bytes : List UInt8) :
    Input.ofChars (Utf8.lossy bytes) = mended (Utf8.items bytes) :=
  List.map_map

theorem mended_eq_nil_iff {s : Input} : mended s = [] ↔ s = [] := List.map_eq_nil_iff

theorem mend_eq_some_iff {o : Option Char} {c : Char} (hc : c ≠ '\uFFFD') :
    mend o = some c ↔ o = some c := by
  cases o with
  | none => simp [mend, hc.symm]
  | some d => rfl

theorem mended_eq_cons_iff {s u : Input} {c : Char} (hc : c ≠ '\uFFFD') :
    mended s = some c :: u ↔ ∃ t, s = some c :: t ∧ mended t = u := by
  unfold mended
  rw [List.map_eq_cons_iff]
  simp only [mend_eq_some_iff hc]
  constructor
  · rintro ⟨_, t, rfl, rfl, ht⟩
    exact ⟨t, rfl, ht⟩
  · rintro ⟨t, rfl, ht⟩
    exact ⟨_, t, rfl, rfl, ht⟩

theorem mended_ne_cons {s : Input} {c : Char} (hc : c ≠ '\uFFFD') (h : ∀ r, s ≠ some c :: r)
    (u : Input) : mended s ≠ some c :: u := by
  intro hu
  obtain ⟨r, hr, -⟩ := (mended_eq_cons_iff hc).mp hu
  exact h r hr

/-- A text without U+FFFD stands in a mended input only where it stood before. -/
theorem mended_eq_append_iff {s u : Input} {text : List Char} (h : '\uFFFD' ∉ text) :
    mended s = Input.ofChars text ++ u ↔ ∃ t, s = Input.ofChars text ++ t ∧ mended t = u := by
  induction text generalizing s with
  | nil => exact ⟨fun hs => ⟨s, rfl, hs⟩, fun ⟨t, hs, ht⟩ => hs ▸ ht⟩
  | cons c text ih =>
    rw [List.mem_cons, not_or] at h
    rw [ofChars_cons, mended_eq_cons_iff (Ne.symm h.1)]
    constructor
    · rintro ⟨r, rfl, hr⟩
      obtain ⟨t, rfl, ht⟩ := (ih h.2).mp hr
      exact ⟨t, rfl, ht⟩
    · rintro ⟨t, rfl, ht⟩
      exact ⟨_, rfl, (ih h.2).mpr ⟨t, rfl, ht⟩⟩

theorem isBlank_mend (o : Option Char) : isBlank (mend o) = isBlank o := by
  cases o <;> rfl

theorem dropWhile_mended (s : Input) :
    (mended s).dropWhile isBlank = mended (s.dropWhile isBlank) := by
  have hblank : isBlank ∘ mend = isBlank := funext isBlank_mend
  rw [mended, List.dropWhile_map, hblank, mended]

theorem digitItem?_mend (o : Option Char) : digitItem? (mend o) = digitItem? o := by
  cases o <;> rfl

theorem isSome_digitItem?_comp_mend :
    (fun o => (digitItem? o).isSome) ∘ mend = fun o => (digitItem? o).isSome :=
  funext fun o => congrArg Option.isSome (digitItem?_mend o)

theorem beginsNumber_mend (o : Option Char) : beginsNumber (mend o) = beginsNumber o := by
  cases o <;> rfl

/-! ## Mended containers -/

theorem ahead_mended_iff {first : Bool} {s u : Input} :
    Ahead first (mended s) u ↔ ∃ t, Ahead first s t ∧ mended t = u := by
  cases first with
  | true => exact ⟨fun hs => ⟨s, rfl, hs⟩, fun ⟨t, hs, ht⟩ => hs ▸ ht⟩
  | false =>
    unfold Ahead
    dsimp only
    rw [dropWhile_mended, mended_eq_cons_iff (by decide)]

section

variable {next : Bool → (s : Input) → Except Fault (Next s)} {closing : Char} {starts : Input → Prop}
  {first : Bool} {s u : Input}

/-- A container ends where it ended, if it is not closed by U+FFFD. -/
theorem Delimits.closes_mended_iff (h : Delimits next closing starts) (hclosing : closing ≠ '\uFFFD') :
    Closes next first (mended s) u ↔ ∃ t, Closes next first s t ∧ mended t = u := by
  simp only [h.closes]
  rw [dropWhile_mended, mended_eq_cons_iff hclosing]

/-- An item begins where it began, if mending does not change how items begin. -/
theorem Delimits.begins_mended_iff (h : Delimits next closing starts)
    (hstarts : ∀ s, starts (mended s) ↔ starts s) :
    Begins next first (mended s) u ↔ ∃ b, Begins next first s b ∧ mended b = u := by
  simp only [h.begins, ahead_mended_iff]
  constructor
  · rintro ⟨_, ⟨t, ht, rfl⟩, rfl, hu⟩
    rw [dropWhile_mended, hstarts] at hu
    exact ⟨_, ⟨t, ht, rfl, hu⟩, (dropWhile_mended t).symm⟩
  · rintro ⟨_, ⟨t, ht, rfl, hb⟩, rfl⟩
    exact ⟨_, ⟨t, ht, rfl⟩, dropWhile_mended t, (hstarts _).mpr hb⟩

end

/-! ## Readers of the same places -/

/-- Where `p` reads something from an input, `q` reads something related from the mended input and
leaves the mended rest; and `q` reads nothing from a mended input of which `p` reads nothing. -/
structure Mends (p : Reader α) (q : Reader β) (R : α → β → Prop) : Prop where
  there {s t : Input} {a : α} : Reads p s a t → ∃ b, Reads q (mended s) b (mended t) ∧ R a b
  back {s u : Input} {b : β} : Reads q (mended s) b u → ∃ a t, Reads p s a t

namespace Mends

variable {p : Reader α} {q : Reader β} {R : α → β → Prop}

/-- What is read from a mended input is related to what is read from the input itself. -/
theorem reads (h : Mends p q R) {s u : Input} {b : β} (hread : Reads q (mended s) b u) :
    ∃ a t, Reads p s a t ∧ mended t = u ∧ R a b := by
  obtain ⟨a, t, ha⟩ := h.back hread
  obtain ⟨b', hb, hR⟩ := h.there ha
  obtain ⟨rfl, rfl⟩ := hb.unique hread
  exact ⟨a, t, ha, rfl, hR⟩

/-- A reader that comes out alike for an input and the mended one. -/
theorem of_outcome {p : Reader α}
    (h : ∀ s, outcome (p (mended s)) = (outcome (p s)).map fun (a, t) => (a, mended t)) :
    Mends p p Eq where
  there {s t a} hread := by
    refine ⟨a, ?_, rfl⟩
    rw [Reads, h, hread]
    rfl
  back {s u b} hread := by
    rw [Reads, h, map_eq_ok_iff] at hread
    obtain ⟨⟨a, t⟩, ha, -⟩ := hread
    exact ⟨a, t, ha⟩

theorem mapValue (h : Mends p q R) {f : α → γ} {g : β → δ} {S : γ → δ → Prop}
    (hS : ∀ a b, R a b → S (f a) (g b)) :
    Mends (fun s => mapValue f (p s)) (fun s => mapValue g (q s)) S where
  there hread := by
    obtain ⟨a, ha, rfl⟩ := reads_mapValue.mp hread
    obtain ⟨b, hb, hR⟩ := h.there ha
    exact ⟨g b, reads_mapValue.mpr ⟨b, hb, rfl⟩, hS a b hR⟩
  back hread := by
    obtain ⟨b, hb, -⟩ := reads_mapValue.mp hread
    obtain ⟨a, t, ha⟩ := h.back hb
    exact ⟨f a, t, reads_mapValue.mpr ⟨a, ha, rfl⟩⟩

theorem afterFirst (h : Mends p q R) : Mends (afterFirst p) (afterFirst q) R where
  there {s t a} hread := by
    cases s with
    | nil => exact absurd hread not_reads_nil
    | cons c s =>
      obtain ⟨b, hb, hR⟩ := h.there (reads_afterFirst.mp hread)
      exact ⟨b, reads_afterFirst.mpr hb, hR⟩
  back {s u b} hread := by
    cases s with
    | nil => exact absurd hread not_reads_nil
    | cons c s =>
      obtain ⟨a, t, ha⟩ := h.back (reads_afterFirst.mp hread)
      exact ⟨a, t, reads_afterFirst.mpr ha⟩

theorem member {key : Reader κ} {key' : Reader κ'} {K : κ → κ' → Prop} (hkey : Mends key key' K)
    (h : Mends p q R) :
    Mends (member key fun _ => p) (member key' fun _ => q) fun m n => K m.1 n.1 ∧ R m.2 n.2 where
  there {s t m} hread := by
    obtain ⟨r, u, hk, hcolon, ha⟩ := reads_member.mp hread
    obtain ⟨k, hk', hK⟩ := hkey.there hk
    obtain ⟨b, hb, hR⟩ := h.there ha
    refine ⟨(k, b), reads_member.mpr ⟨mended r, mended u, hk', ?_, hb⟩, hK, hR⟩
    rw [dropWhile_mended, hcolon]
    rfl
  back {s v n} hread := by
    obtain ⟨r, u, hk, hcolon, hb⟩ := reads_member.mp hread
    obtain ⟨k, r, hk', rfl, -⟩ := hkey.reads hk
    rw [dropWhile_mended, mended_eq_cons_iff (by decide)] at hcolon
    obtain ⟨u, hcolon, rfl⟩ := hcolon
    obtain ⟨a, t, ha⟩ := h.back hb
    exact ⟨(k, a), t, reads_member.mpr ⟨r, u, hk', hcolon, ha⟩⟩

/-- The pieces of a string, where each piece is read alike. -/
theorem pieces {p : Reader (Option α)} (h : Mends p p Eq) : Mends (pieces p) (pieces p) Eq where
  there {s t as} hread := by
    refine ⟨as, ?_, rfl⟩
    induction as generalizing s with
    | nil =>
      rcases reads_pieces.mp hread with ⟨-, hend⟩ | ⟨a, rest, r, heq, -⟩
      · obtain ⟨_, hend, rfl⟩ := h.there hend
        exact reads_pieces.mpr (Or.inl ⟨rfl, hend⟩)
      · cases heq
    | cons a as ih =>
      rcases reads_pieces.mp hread with ⟨heq, -⟩ | ⟨a, rest, r, heq, hpiece, hrest⟩
      · cases heq
      · cases heq
        obtain ⟨_, hpiece, rfl⟩ := h.there hpiece
        exact reads_pieces.mpr (Or.inr ⟨_, _, _, rfl, hpiece, ih hrest⟩)
  back {s u bs} hread := by
    induction bs generalizing s with
    | nil =>
      rcases reads_pieces.mp hread with ⟨-, hend⟩ | ⟨a, rest, r, heq, -⟩
      · obtain ⟨_, t, hend, -, rfl⟩ := h.reads hend
        exact ⟨[], t, reads_pieces.mpr (Or.inl ⟨rfl, hend⟩)⟩
      · cases heq
    | cons b bs ih =>
      rcases reads_pieces.mp hread with ⟨heq, -⟩ | ⟨b, rest, r, heq, hpiece, hrest⟩
      · cases heq
      · cases heq
        obtain ⟨_, r, hpiece, rfl, rfl⟩ := h.reads hpiece
        obtain ⟨as, t, has⟩ := ih hrest
        exact ⟨_ :: as, t, reads_pieces.mpr (Or.inr ⟨_, _, _, rfl, hpiece, has⟩)⟩

/-- The items of a container, of which nothing that delimits them is U+FFFD. -/
theorem items (h : Mends p q R) {next : Bool → (s : Input) → Except Fault (Next s)}
    {closing : Char} {starts : Input → Prop} (hlayout : Delimits next closing starts)
    (hclosing : closing ≠ '\uFFFD') (hstarts : ∀ s, starts (mended s) ↔ starts s) (first : Bool) :
    Mends (items next p first) (items next q first) (List.Forall₂ R) where
  there {s t as} hread := by
    induction as generalizing first s with
    | nil =>
      rcases reads_items.mp hread with ⟨-, hend⟩ | ⟨a, rest, b, r, heq, -⟩
      · have hend' := (hlayout.closes_mended_iff hclosing).mpr ⟨t, hend, rfl⟩
        exact ⟨[], reads_items.mpr (Or.inl ⟨rfl, hend'⟩), .nil⟩
      · cases heq
    | cons a as ih =>
      rcases reads_items.mp hread with ⟨heq, -⟩ | ⟨a, rest, r, r', heq, hbegins, ha, hrest⟩
      · cases heq
      · cases heq
        have hbegins' := (hlayout.begins_mended_iff hstarts).mpr ⟨r, hbegins, rfl⟩
        obtain ⟨b, hb, hR⟩ := h.there ha
        obtain ⟨bs, hbs, hRs⟩ := ih false hrest
        exact ⟨b :: bs, reads_items.mpr (Or.inr ⟨b, bs, _, _, rfl, hbegins', hb, hbs⟩), .cons hR hRs⟩
  back {s u bs} hread := by
    induction bs generalizing first s with
    | nil =>
      rcases reads_items.mp hread with ⟨-, hend⟩ | ⟨a, rest, b, r, heq, -⟩
      · obtain ⟨t, hend', -⟩ := (hlayout.closes_mended_iff hclosing).mp hend
        exact ⟨[], t, reads_items.mpr (Or.inl ⟨rfl, hend'⟩)⟩
      · cases heq
    | cons b bs ih =>
      rcases reads_items.mp hread with ⟨heq, -⟩ | ⟨b, bs, r, r', heq, hbegins, hb, hrest⟩
      · cases heq
      · cases heq
        obtain ⟨r, hbegins', rfl⟩ := (hlayout.begins_mended_iff hstarts).mp hbegins
        obtain ⟨a, r', ha, rfl, -⟩ := h.reads hb
        obtain ⟨as, t, has⟩ := ih false hrest
        exact ⟨a :: as, t, reads_items.mpr (Or.inr ⟨a, as, r, r', rfl, hbegins', ha, has⟩)⟩

/-- All of a text is read where all of the mended text is. -/
theorem whole_ok (h : Mends p q R) {s : Input} {a : α} (hread : whole p s = .ok a) :
    ∃ b, whole q (mended s) = .ok b ∧ R a b := by
  obtain ⟨t, ha, hend⟩ := whole_ok_iff.mp hread
  obtain ⟨b, hb, hR⟩ := h.there ha
  refine ⟨b, whole_ok_iff.mpr ⟨_, hb, ?_⟩, hR⟩
  rw [dropWhile_mended, mended_eq_nil_iff]
  exact hend

theorem of_whole_ok (h : Mends p q R) {s : Input} {b : β} (hread : whole q (mended s) = .ok b) :
    ∃ a, whole p s = .ok a ∧ R a b := by
  obtain ⟨_, hb, hend⟩ := whole_ok_iff.mp hread
  obtain ⟨a, t, ha, rfl, hR⟩ := h.reads hb
  refine ⟨a, whole_ok_iff.mpr ⟨t, ha, ?_⟩, hR⟩
  rw [dropWhile_mended, mended_eq_nil_iff] at hend
  exact hend

end Mends

/-! ## Numbers -/

theorem digitsOf_mended (s : Input) : digitsOf (mended s) = digitsOf s := by
  have hvalue : digitItem? ∘ mend = digitItem? := funext digitItem?_mend
  rw [digitsOf, mended, List.takeWhile_map, isSome_digitItem?_comp_mend, List.filterMap_map, hvalue,
    digitsOf]

theorem behindDigits_mended (s : Input) : (behindDigits (mended s)).1 = mended (behindDigits s).1 := by
  change (s.map mend).dropWhile _ = (s.dropWhile _).map mend
  rw [List.dropWhile_map, isSome_digitItem?_comp_mend]

/-- What was read of a part of a number that may be missing, and what is left. -/
def partOutcome {s : Input} : Except Fault (α × Tail s) → Except Cause (α × Input)
  | .ok (a, r) => .ok (a, r.1)
  | .error e => .error e.cause

theorem outcome_unsignedLiteral (negative : Bool) (s : Input) :
    outcome (unsignedLiteral negative s) = do
      let (whole, r) ← outcome (wholePart s)
      let (fraction, r') ← partOutcome (fractionPart r)
      let (exponent, t) ← partOutcome (exponentPart r')
      return (⟨negative, whole, fraction, exponent⟩, t) := by
  unfold unsignedLiteral
  cases wholePart s with
  | error e => rfl
  | ok result =>
    obtain ⟨whole, r⟩ := result
    dsimp only [outcome]
    change _ = (partOutcome (fractionPart r.1)).bind _
    cases fractionPart r.1 with
    | error e => rfl
    | ok result =>
      obtain ⟨fraction, r'⟩ := result
      dsimp only [partOutcome, Except.bind]
      change _ = (partOutcome (exponentPart r'.1)).bind _
      cases exponentPart r'.1 <;> rfl

theorem outcome_wholePart_mended (s : Input) :
    outcome (wholePart (mended s)) = (outcome (wholePart s)).map fun (a, t) => (a, mended t) := by
  cases s with
  | nil => rfl
  | cons c s =>
    rw [mended_cons]
    unfold wholePart
    dsimp only
    rw [digitItem?_mend]
    cases digitItem? c with
    | none => rfl
    | some d =>
      dsimp only
      rw [digitsOf_mended]
      split
      · rfl
      · simp only [outcome, Except.map, Rest.withBehind, behindDigits_mended]

/-- Without a point there is no fraction. -/
theorem outcome_fractionPart_of_ne {s : Input} (h : ∀ r, s ≠ some '.' :: r) :
    partOutcome (fractionPart s) = .ok ([], s) := by
  unfold fractionPart
  split
  · exact absurd rfl (h _)
  · rfl

theorem outcome_fractionPart_point (s : Input) :
    partOutcome (fractionPart (some '.' :: s)) =
      if digitsOf s = [] then .error (if s = [] then .endInValue else .invalidNumber)
      else .ok (digitsOf s, (behindDigits s).1) := by
  unfold fractionPart
  cases hdigits : digitsOf s with
  | nil =>
    simp only [hdigits]
    cases s <;> rfl
  | cons d ds =>
    simp only [hdigits]
    rfl

theorem outcome_fractionPart_mended (s : Input) :
    partOutcome (fractionPart (mended s))
      = (partOutcome (fractionPart s)).map fun (a, t) => (a, mended t) := by
  by_cases hpoint : ∃ r, s = some '.' :: r
  · obtain ⟨r, rfl⟩ := hpoint
    change partOutcome (fractionPart (some '.' :: mended r)) = _
    rw [outcome_fractionPart_point, outcome_fractionPart_point, digitsOf_mended,
      behindDigits_mended]
    simp only [mended_eq_nil_iff]
    split <;> rfl
  · rw [not_exists] at hpoint
    rw [outcome_fractionPart_of_ne hpoint,
      outcome_fractionPart_of_ne (mended_ne_cons (by decide) hpoint)]
    rfl

/-- No sign is mended, and none comes from mending. -/
theorem exponentSign_mended (s : Input) :
    (exponentSign (mended s)).1 = (exponentSign s).1 ∧
      (exponentSign (mended s)).2.1 = mended (exponentSign s).2.1 := by
  by_cases hplus : ∃ r, s = some '+' :: r
  · obtain ⟨r, rfl⟩ := hplus
    exact ⟨rfl, rfl⟩
  by_cases hminus : ∃ r, s = some '-' :: r
  · obtain ⟨r, rfl⟩ := hminus
    exact ⟨rfl, rfl⟩
  rw [not_exists] at hplus hminus
  rw [exponentSign_of_ne hplus hminus, exponentSign_of_ne (mended_ne_cons (by decide) hplus)
    (mended_ne_cons (by decide) hminus)]
  exact ⟨rfl, rfl⟩

/-- An exponent is read behind its mark, or there is none. -/
theorem outcome_exponentPart_cons (c : Option Char) (s : Input) :
    partOutcome (exponentPart (c :: s)) =
      if c = some 'e' ∨ c = some 'E' then
        if digitsOf (exponentSign s).2.1 = [] then
          .error (if (exponentSign s).2.1 = [] then .endInValue else .invalidNumber)
        else .ok (some ((exponentSign s).1, digitsOf (exponentSign s).2.1),
          (behindDigits (exponentSign s).2.1).1)
      else .ok (none, c :: s) := by
  unfold exponentPart
  dsimp only
  split
  · obtain ⟨negative, t, ht⟩ := exponentSign s
    cases hdigits : digitsOf t with
    | nil =>
      simp only
      cases t <;> rfl
    | cons d ds => rfl
  · rfl

theorem outcome_exponentPart_mended (s : Input) :
    partOutcome (exponentPart (mended s))
      = (partOutcome (exponentPart s)).map fun (a, t) => (a, mended t) := by
  cases s with
  | nil => rfl
  | cons c s =>
    obtain ⟨hsign, hrest⟩ := exponentSign_mended s
    have hmark : (mend c = some 'e' ∨ mend c = some 'E') ↔ c = some 'e' ∨ c = some 'E' :=
      or_congr (mend_eq_some_iff (by decide)) (mend_eq_some_iff (by decide))
    rw [mended_cons, outcome_exponentPart_cons, outcome_exponentPart_cons, hsign, hrest,
      digitsOf_mended, behindDigits_mended]
    simp only [hmark, mended_eq_nil_iff]
    split
    · split <;> rfl
    · rfl

theorem outcome_unsignedLiteral_mended (negative : Bool) (s : Input) :
    outcome (unsignedLiteral negative (mended s))
      = (outcome (unsignedLiteral negative s)).map fun (a, t) => (a, mended t) := by
  rw [outcome_unsignedLiteral, outcome_unsignedLiteral, outcome_wholePart_mended]
  rcases outcome (wholePart s) with _ | ⟨whole, r⟩
  · rfl
  change (partOutcome (fractionPart (mended r))).bind _ = Except.map _ ((partOutcome _).bind _)
  rw [outcome_fractionPart_mended]
  rcases partOutcome (fractionPart r) with _ | ⟨fraction, r'⟩
  · rfl
  change (partOutcome (exponentPart (mended r'))).bind _ = Except.map _ ((partOutcome _).bind _)
  rw [outcome_exponentPart_mended]
  rcases partOutcome (exponentPart r') with _ | ⟨exponent, t⟩ <;> rfl

theorem outcome_literal_cons (c : Option Char) (s : Input) :
    outcome (literal (c :: s)) =
      if c = some '-' then outcome (unsignedLiteral true s)
      else outcome (unsignedLiteral false (c :: s)) := by
  unfold literal
  dsimp only
  split
  · cases unsignedLiteral true s <;> rfl
  · rfl

/-- **A number is read alike**, for none of its characters comes from mending. -/
theorem mends_literal : Mends literal literal Eq := by
  refine .of_outcome fun s => ?_
  cases s with
  | nil => rfl
  | cons c s =>
    rw [mended_cons, outcome_literal_cons, outcome_literal_cons]
    simp only [mend_eq_some_iff (show '-' ≠ '\uFFFD' by decide)]
    split
    · exact outcome_unsignedLiteral_mended true s
    · exact outcome_unsignedLiteral_mended false (c :: s)

/-! ## Strings -/

theorem mended_ne_cons_none {s u : Input} : mended s ≠ none :: u := by
  intro h
  obtain ⟨o, t, -, ho, -⟩ := List.map_eq_cons_iff.mp h
  cases ho

theorem Skipped.mended {piece : Input} (h : Skipped piece) : Skipped (mended piece) := by
  cases h with
  | plain hcontrol hquote hbackslash => exact .plain hcontrol hquote hbackslash
  | broken => exact .plain (by decide) (by decide) (by decide)
  | letter h => exact .letter h
  | number h =>
    rw [mended_cons, mended_cons, mended_ofChars]
    exact .number h

theorem ne_replacement_of_hexDigit {c : Char} {n : Nat} (h : HexDigit c n) : c ≠ '\uFFFD' := by
  rintro rfl
  cases hex?_of_hexDigit h

theorem not_mem_of_fourHex {digits : List Char} {n : Nat} (h : FourHex digits n) :
    '\uFFFD' ∉ digits := by
  cases h with
  | intro ha hb hc hd =>
    simp [(ne_replacement_of_hexDigit ha).symm, (ne_replacement_of_hexDigit hb).symm,
      (ne_replacement_of_hexDigit hc).symm, (ne_replacement_of_hexDigit hd).symm]

theorem ne_replacement_of_letterEscape {l c : Char} (h : LetterEscape l c) : l ≠ '\uFFFD' := by
  cases h <;> decide

/-- What is passed of a mended input was passed before. -/
theorem exists_skipped {s u piece : Input} (h : Skipped piece) (hs : mended s = piece ++ u) :
    ∃ piece' t, Skipped piece' ∧ s = piece' ++ t := by
  cases h with
  | @plain c hcontrol hquote hbackslash =>
    obtain ⟨o, t, rfl, ho, -⟩ := List.map_eq_cons_iff.mp hs
    cases o with
    | none => exact ⟨[none], t, .broken, rfl⟩
    | some d =>
      cases ho
      exact ⟨[some d], t, .plain hcontrol hquote hbackslash, rfl⟩
  | broken => exact absurd hs mended_ne_cons_none
  | @letter l c h =>
    have hnone : '\uFFFD' ∉ ['\\', l] := by simp [(ne_replacement_of_letterEscape h).symm]
    obtain ⟨t, rfl, -⟩ := (mended_eq_append_iff hnone).mp hs
    exact ⟨_, t, .letter h, rfl⟩
  | @number digits n h =>
    have hnone : '\uFFFD' ∉ '\\' :: 'u' :: digits := by simp [not_mem_of_fourHex h]
    obtain ⟨t, rfl, -⟩ := (mended_eq_append_iff hnone).mp hs
    exact ⟨_, t, .number h, rfl⟩

theorem mends_skippedPiece : Mends skippedPiece skippedPiece Eq where
  there {s t o} hread := by
    refine ⟨o, ?_, rfl⟩
    rcases reads_skippedPiece_iff.mp hread with ⟨rfl, rfl⟩ | ⟨rfl, piece, hpiece, rfl⟩
    · exact reads_skippedPiece_iff.mpr (Or.inl ⟨rfl, rfl⟩)
    · exact reads_skippedPiece_iff.mpr (Or.inr ⟨rfl, _, hpiece.mended, mended_append piece t⟩)
  back {s u o} hread := by
    rcases reads_skippedPiece_iff.mp hread with ⟨rfl, hs⟩ | ⟨rfl, piece, hpiece, hs⟩
    · obtain ⟨t, hs, -⟩ := (mended_eq_cons_iff (by decide)).mp hs
      exact ⟨none, t, reads_skippedPiece_iff.mpr (Or.inl ⟨rfl, hs⟩)⟩
    · obtain ⟨piece', t, hpiece', hs⟩ := exists_skipped hpiece hs
      exact ⟨some (), t, reads_skippedPiece_iff.mpr (Or.inr ⟨rfl, piece', hpiece', hs⟩)⟩

/-- **A string is passed alike**, whatever it holds. -/
theorem mends_skippedTail : Mends skippedTail skippedTail Eq :=
  mends_skippedPiece.pieces.mapValue fun _ _ _ => rfl

/-! ## Strings that are texts -/

/-- A string of a text, and what stands in its place in the mended text. -/
inductive MendedText : Option String → Option String → Prop
  | same (o : Option String) : MendedText o o
  /-- What was no text has become one, with U+FFFD in it. -/
  | replaced {t : String} : '\uFFFD' ∈ t.toList → MendedText none (some t)

theorem not_mem_of_charText {text : List Char} {c : Char} (h : CharText text c)
    (hc : c ≠ '\uFFFD') : '\uFFFD' ∉ text := by
  cases h with
  | plain => exact fun hmem => hc (List.mem_singleton.mp hmem).symm
  | letter h => simp [(ne_replacement_of_letterEscape h).symm]
  | number h => simp [not_mem_of_fourHex h]
  | pair h _ _ h' => simp [not_mem_of_fourHex h, not_mem_of_fourHex h']

/-- Only U+FFFD is spelled with U+FFFD. -/
theorem not_mem_of_charsText {text cs : List Char} (h : CharsText text cs) (hcs : '\uFFFD' ∉ cs) :
    '\uFFFD' ∉ text := by
  induction h with
  | nil => exact List.not_mem_nil
  | cons hchar _ ih =>
    rw [List.mem_cons, not_or] at hcs
    rw [List.mem_append, not_or]
    exact ⟨not_mem_of_charText hchar (Ne.symm hcs.1), ih hcs.2⟩

/-- A text is read from the mended input as from the input itself. -/
theorem reads_stringTail_mended {s t : Input} {a : String} (h : Reads stringTail s a t) :
    Reads stringTail (mended s) a (mended t) := by
  obtain ⟨text, htext, rfl⟩ := reads_stringTail_iff.mp h
  refine reads_stringTail_iff.mpr ⟨text, htext, ?_⟩
  rw [mended_append, mended_ofChars]
  rfl

/-- A text without U+FFFD was one before. -/
theorem exists_reads_stringTail {s u : Input} {a : String} (h : Reads stringTail (mended s) a u)
    (ha : '\uFFFD' ∉ a.toList) : ∃ t, Reads stringTail s a t := by
  obtain ⟨text, htext, hs⟩ := reads_stringTail_iff.mp h
  obtain ⟨r, rfl, hr⟩ := (mended_eq_append_iff (not_mem_of_charsText htext ha)).mp hs
  obtain ⟨t, rfl, -⟩ := (mended_eq_cons_iff (by decide)).mp hr
  exact ⟨t, reads_stringTail_iff.mpr ⟨text, htext, rfl⟩⟩

/-- **The strings of a mended text** stand where they stood, and are texts where they were. -/
theorem mends_stringTree : Mends stringTree stringTree MendedText where
  there {s t o} hread := by
    cases o with
    | some a =>
      exact ⟨some a, reads_stringTree_some_iff.mpr
        (reads_stringTail_mended (reads_stringTree_some_iff.mp hread)), .same _⟩
    | none =>
      obtain ⟨_, hskipped, rfl⟩ := mends_skippedTail.there (reads_skippedTail_iff.mpr ⟨none, hread⟩)
      obtain ⟨o, ho⟩ := reads_skippedTail_iff.mp hskipped
      refine ⟨o, ho, ?_⟩
      cases o with
      | none => exact .same none
      | some a =>
        refine .replaced ?_
        by_contra ha
        obtain ⟨r, hr⟩ := exists_reads_stringTail (reads_stringTree_some_iff.mp ho) ha
        cases (hread.unique (reads_stringTree_some_iff.mpr hr)).1
  back {s u o} hread := by
    obtain ⟨_, t, hskipped⟩ := mends_skippedTail.back (reads_skippedTail_iff.mpr ⟨o, hread⟩)
    obtain ⟨o', ho'⟩ := reads_skippedTail_iff.mp hskipped
    exact ⟨o', t, ho'⟩

end SecretClient.Json
