import SecretClient.Proofs.Json.Grammar

/-!
# The layout of containers

What stands between the items of a container: blanks, commas, and the bracket at its end. `Delimits`
says of a container how its items begin and what closes it, for lists and objects alike, and says it
with equivalences: all that is read can be told from it, and all that is refused. The texts that are
written for values have no blanks between items; what of the layout concerns them is `Separates`.

* `delimits_nextElement`, `delimits_nextKey` : the layout of lists and of objects
* `laid_intercalate` : where the texts of items stand in a text that was written
-/

namespace SecretClient.Json

open Grammar (Blanks)

/-! ## Texts in an input -/

theorem ofChars_append (text rest : List Char) (t : Input) :
    Input.ofChars (text ++ rest) ++ t = Input.ofChars text ++ (Input.ofChars rest ++ t) := by
  simp [Input.ofChars]

theorem ofChars_cons (c : Char) (text : List Char) (t : Input) :
    Input.ofChars (c :: text) ++ t = some c :: (Input.ofChars text ++ t) := rfl

theorem ofChars_quoted (opening closing : Char) (text : List Char) (t : Input) :
    Input.ofChars (opening :: text ++ [closing]) ++ t
      = some opening :: (Input.ofChars text ++ some closing :: t) := by
  simp [Input.ofChars]

theorem ofChars_injective {text rest : List Char} (h : Input.ofChars text = Input.ofChars rest) :
    text = rest :=
  List.map_injective_iff.mpr (fun _ _ => Option.some.inj) h

/-! ## Blanks -/

theorem isBlank_iff {c : Char} : isBlank (some c) = true ↔ c ∈ [' ', '\t', '\n', '\r'] := by
  simp [isBlank, or_assoc]

theorem dropWhile_blanks {text : List Char} (h : Blanks text) (s : Input) :
    (Input.ofChars text ++ s).dropWhile isBlank = s.dropWhile isBlank := by
  induction text with
  | nil => rfl
  | cons c text ih =>
    rw [ofChars_cons, List.dropWhile_cons_of_pos (isBlank_iff.mpr (h c List.mem_cons_self))]
    exact ih fun d hd => h d (List.mem_cons_of_mem _ hd)

theorem exists_blanks (s : Input) :
    ∃ text, Blanks text ∧ s = Input.ofChars text ++ s.dropWhile isBlank := by
  induction s with
  | nil => exact ⟨[], by simp [Blanks], rfl⟩
  | cons o s ih =>
    by_cases ho : isBlank o = true
    · obtain ⟨text, htext, hs⟩ := ih
      cases o with
      | none => cases ho
      | some c =>
        refine ⟨c :: text, ?_, ?_⟩
        · intro d hd
          rcases List.mem_cons.mp hd with rfl | hd
          · exact isBlank_iff.mp ho
          · exact htext d hd
        · rw [List.dropWhile_cons_of_pos ho]
          exact congrArg (some c :: ·) hs
    · refine ⟨[], by simp [Blanks], ?_⟩
      rw [List.dropWhile_cons_of_neg ho]
      rfl

/-- Blanks, and behind them something that is none. -/
theorem dropWhile_eq_cons_iff {s t : Input} {o : Option Char} :
    s.dropWhile isBlank = o :: t ↔
      isBlank o = false ∧ ∃ text, Blanks text ∧ s = Input.ofChars text ++ o :: t := by
  constructor
  · intro h
    obtain ⟨text, htext, hs⟩ := exists_blanks s
    rw [h] at hs
    refine ⟨?_, text, htext, hs⟩
    have hhead := List.head?_dropWhile_not isBlank s
    rw [h] at hhead
    exact hhead
  · rintro ⟨ho, text, htext, rfl⟩
    rw [dropWhile_blanks htext, List.dropWhile_cons_of_neg (by rw [ho]; exact Bool.false_ne_true)]

theorem dropWhile_eq_nil_iff {text : List Char} :
    (Input.ofChars text).dropWhile isBlank = [] ↔ Blanks text := by
  constructor
  · intro h c hc
    have hall := List.dropWhile_eq_nil_iff.mp h
    exact isBlank_iff.mp (hall (some c) (List.mem_map_of_mem hc))
  · intro h
    have hdrop := dropWhile_blanks h []
    rw [List.append_nil] at hdrop
    exact hdrop

theorem stops_blanks {text : List Char} (h : Blanks text) {t : Input} (ht : Stops t) :
    Stops (Input.ofChars text ++ t) := by
  cases text with
  | nil => exact ht
  | cons c text =>
    refine stops_cons ?_ _
    have hc := h c List.mem_cons_self
    simp only [List.mem_cons] at hc ⊢
    tauto

/-! ## What stands in front of items -/

/-- The items of a container go on in front of `r`: behind its opening bracket, or behind a comma. -/
def Ahead (first : Bool) (s r : Input) : Prop :=
  match first with
  | true => s = r
  | false => s.dropWhile isBlank = some ',' :: r

/-- How a container is laid out: what closes it, and how its items begin. -/
structure Delimits (next : Bool → (s : Input) → Except Fault (Next s)) (closing : Char)
    (starts : Input → Prop) : Prop where
  solid : ¬ isBlank (some closing) = true
  stops (t : Input) : Stops (some closing :: t)
  closes {first : Bool} {s t : Input} :
    Closes next first s t ↔ s.dropWhile isBlank = some closing :: t
  begins {first : Bool} {s b : Input} :
    Begins next first s b ↔ ∃ r, Ahead first s r ∧ r.dropWhile isBlank = b ∧ starts b
  unblank {s : Input} : starts s → s.dropWhile isBlank = s

/-! ## How elements and members begin -/

/-- An element begins here: behind all blanks, and not with the end of the list. -/
def StartsElement (s : Input) : Prop := ∃ c r, s = c :: r ∧ isBlank c = false ∧ c ≠ some ']'

/-- A member begins here, with the quote of its key. -/
def StartsMember (s : Input) : Prop := ∃ r, s = some '"' :: r

theorem dropWhile_of_startsElement {s : Input} (h : StartsElement s) : s.dropWhile isBlank = s := by
  obtain ⟨c, r, rfl, hblank, -⟩ := h
  exact List.dropWhile_cons_of_neg (by rw [hblank]; exact Bool.false_ne_true)

/-- What stands behind blanks begins an element unless it is nothing or the end of the list. -/
theorem startsElement_dropWhile {s r : Input} {c : Option Char} (h : s.dropWhile isBlank = c :: r)
    (hc : c ≠ some ']') : StartsElement (c :: r) :=
  ⟨c, r, rfl, (dropWhile_eq_cons_iff.mp h).1, hc⟩

theorem begins_nextElement {first : Bool} {s b : Input} :
    Begins nextElement first s b ↔
      ∃ r, Ahead first s r ∧ r.dropWhile isBlank = b ∧ StartsElement b := by
  unfold Begins
  rw [nextOutcome_nextElement]
  constructor
  · intro h
    cases hs : s.dropWhile isBlank with
    | nil => rw [hs] at h; cases h
    | cons c r =>
      rw [hs] at h
      dsimp only at h
      split at h
      · cases h
      · next hc =>
        cases first with
        | true =>
          cases h
          exact ⟨s, rfl, hs, startsElement_dropWhile hs hc⟩
        | false =>
          rw [if_neg Bool.false_ne_true] at h
          split at h
          · next hcomma =>
            subst hcomma
            cases hr : r.dropWhile isBlank with
            | nil => rw [hr] at h; cases h
            | cons d t =>
              rw [hr] at h
              dsimp only at h
              split at h
              · cases h
              · next hd =>
                cases h
                exact ⟨r, hs, hr, startsElement_dropWhile hr hd⟩
          · cases h
  · rintro ⟨r, hahead, hr, c, t, rfl, -, hc⟩
    cases first with
    | true =>
      cases hahead
      rw [hr]
      dsimp only
      rw [if_neg hc]
      rfl
    | false =>
      unfold Ahead at hahead
      dsimp only at hahead
      rw [hahead]
      dsimp only
      rw [if_neg (by decide), if_neg Bool.false_ne_true, if_pos rfl, hr]
      dsimp only
      rw [if_neg hc]

theorem begins_nextKey {first : Bool} {s b : Input} :
    Begins nextKey first s b ↔ ∃ r, Ahead first s r ∧ r.dropWhile isBlank = b ∧ StartsMember b := by
  unfold Begins
  rw [nextOutcome_nextKey]
  constructor
  · intro h
    cases hs : s.dropWhile isBlank with
    | nil => rw [hs] at h; cases h
    | cons c r =>
      rw [hs] at h
      dsimp only at h
      split at h
      · cases h
      · cases first with
        | true =>
          rw [if_pos rfl] at h
          split at h
          · next hc =>
            cases h
            exact ⟨s, rfl, hs, r, by rw [hc]⟩
          · cases h
        | false =>
          rw [if_neg Bool.false_ne_true] at h
          split at h
          · next hcomma =>
            subst hcomma
            cases hr : r.dropWhile isBlank with
            | nil => rw [hr] at h; cases h
            | cons d t =>
              rw [hr] at h
              dsimp only at h
              split at h
              · next hd =>
                cases h
                exact ⟨r, hs, hr, t, by rw [hd]⟩
              · split at h <;> cases h
          · cases h
  · rintro ⟨r, hahead, hr, t, rfl⟩
    cases first with
    | true =>
      cases hahead
      rw [hr]
      rfl
    | false =>
      unfold Ahead at hahead
      dsimp only at hahead
      rw [hahead]
      dsimp only
      rw [if_neg (by decide), if_neg Bool.false_ne_true, if_pos rfl, hr]
      rfl

theorem closes_nextElement {first : Bool} {s t : Input} :
    Closes nextElement first s t ↔ s.dropWhile isBlank = some ']' :: t := by
  unfold Closes
  rw [nextOutcome_nextElement]
  constructor
  · intro h
    split at h
    · cases h
    · next c r hs =>
      split at h
      · next hc =>
        cases h
        rw [hs, hc]
      -- whatever else is found, the list does not end
      · split at h
        · cases h
        · split at h
          · split at h
            · cases h
            · split at h <;> cases h
          · cases h
  · intro hs
    rw [hs]
    rfl

theorem closes_nextKey {first : Bool} {s t : Input} :
    Closes nextKey first s t ↔ s.dropWhile isBlank = some '\x7d' :: t := by
  unfold Closes
  rw [nextOutcome_nextKey]
  constructor
  · intro h
    split at h
    · cases h
    · next c r hs =>
      split at h
      · next hc =>
        cases h
        rw [hs, hc]
      · split at h
        · split at h <;> cases h
        · split at h
          · split at h
            · cases h
            · split at h
              · cases h
              · split at h <;> cases h
          · cases h
  · intro hs
    rw [hs]
    rfl

theorem delimits_nextElement : Delimits nextElement ']' StartsElement where
  solid := by decide
  stops := stops_cons (by decide)
  closes := closes_nextElement
  begins := begins_nextElement
  unblank := dropWhile_of_startsElement

theorem delimits_nextKey : Delimits nextKey '\x7d' StartsMember where
  solid := by decide
  stops := stops_cons (by decide)
  closes := closes_nextKey
  begins := begins_nextKey
  unblank := by
    rintro s ⟨r, rfl⟩
    rfl

/-- The text of an element begins here: neither with a blank nor with the end of the list. -/
def Opens (text : List Char) : Prop :=
  ∃ c r, text = c :: r ∧ isBlank (some c) = false ∧ c ≠ ']'

theorem startsElement_of_opens {text : List Char} (h : Opens text) (t : Input) :
    StartsElement (Input.ofChars text ++ t) := by
  obtain ⟨c, r, rfl, hblank, hc⟩ := h
  exact ⟨some c, _, rfl, hblank, fun heq => hc (Option.some.inj heq)⟩

/-! ## Containers -/

/-- What the texts of items need of a container: where it is closed, and that they begin items behind
its opening bracket and behind a comma. -/
structure Separates (next : Bool → (s : Input) → Except Fault (Next s)) (closing : Char)
    (opens : List Char → Prop) : Prop where
  closes (first : Bool) (t : Input) : Closes next first (some closing :: t) t
  first {text : List Char} (t : Input) : opens text →
    Begins next true (Input.ofChars text ++ t) (Input.ofChars text ++ t)
  comma {text : List Char} (t : Input) : opens text →
    Begins next false (some ',' :: (Input.ofChars text ++ t)) (Input.ofChars text ++ t)
  stops (t : Input) : Stops (some closing :: t)

/-- The layout of a container separates the texts that begin its items. -/
theorem Delimits.separates {next : Bool → (s : Input) → Except Fault (Next s)} {closing : Char}
    {starts : Input → Prop} {opens : List Char → Prop} (h : Delimits next closing starts)
    (hopens : ∀ {text : List Char}, opens text → ∀ t, starts (Input.ofChars text ++ t)) :
    Separates next closing opens where
  closes _ _ := h.closes.mpr (List.dropWhile_cons_of_neg h.solid)
  first t ht := h.begins.mpr ⟨_, rfl, h.unblank (hopens ht t), hopens ht t⟩
  comma t ht := h.begins.mpr ⟨_, rfl, h.unblank (hopens ht t), hopens ht t⟩
  stops := h.stops

theorem separates_nextElement : Separates nextElement ']' Opens :=
  delimits_nextElement.separates startsElement_of_opens

theorem separates_nextKey : Separates nextKey '\x7d' fun text => ∃ r, text = '"' :: r := by
  refine delimits_nextKey.separates ?_
  rintro text ⟨r, rfl⟩ t
  exact ⟨_, rfl⟩

section

variable {next : Bool → (s : Input) → Except Fault (Next s)} {closing : Char}
  {opens : List Char → Prop}

/-- Items with the given texts stand in front of what is left, and the end of their container. -/
inductive Laid (next : Bool → (s : Input) → Except Fault (Next s)) :
    Bool → Input → List (List Char) → Input → Prop
  | closed {first : Bool} {s t : Input} : Closes next first s t → Laid next first s [] t
  | item {first : Bool} {s r t : Input} {text : List Char} {texts : List (List Char)} :
      Begins next first s (Input.ofChars text ++ r) → Stops r → Laid next false r texts t →
      Laid next first s (text :: texts) t

theorem intercalate_cons (first : List Char) (rest : List (List Char)) :
    [','].intercalate (first :: rest) = first ++ rest.flatMap fun text => ',' :: text := by
  induction rest generalizing first with
  | nil => simp
  | cons second rest ih =>
    rw [List.intercalate_cons_cons, ih, List.flatMap_cons]
    simp

/-- Behind an item there are further items, each behind a comma, or the end. -/
theorem laid_further (h : Separates next closing opens) {texts : List (List Char)}
    (hopens : ∀ text ∈ texts, opens text) (t : Input) :
    Stops (Input.ofChars (texts.flatMap fun text => ',' :: text) ++ some closing :: t) ∧
      Laid next false
        (Input.ofChars (texts.flatMap fun text => ',' :: text) ++ some closing :: t) texts t := by
  induction texts with
  | nil => exact ⟨h.stops t, .closed (h.closes false t)⟩
  | cons text texts ih =>
    obtain ⟨hstops, hlaid⟩ := ih fun other hother => hopens other (List.mem_cons_of_mem _ hother)
    rw [List.flatMap_cons, Input.ofChars, List.map_append, List.append_assoc]
    exact ⟨stops_cons (by decide) _,
      .item (h.comma _ (hopens text List.mem_cons_self)) hstops hlaid⟩

theorem laid_intercalate (h : Separates next closing opens) {texts : List (List Char)}
    (hopens : ∀ text ∈ texts, opens text) (t : Input) :
    Laid next true (Input.ofChars ([','].intercalate texts) ++ some closing :: t) texts t := by
  cases texts with
  | nil => exact .closed (h.closes true t)
  | cons text texts =>
    obtain ⟨hstops, hlaid⟩ :=
      laid_further h (fun other hother => hopens other (List.mem_cons_of_mem _ hother)) t
    rw [intercalate_cons, Input.ofChars, List.map_append, List.append_assoc]
    exact .item (h.first _ (hopens text List.mem_cons_self)) hstops hlaid

end

/-! ## The texts of containers -/

theorem itemTexts_eq_map (vs : List Value) : Value.itemTexts vs = vs.map Value.chars := by
  induction vs with
  | nil => rfl
  | cons v vs ih => rw [Value.itemTexts, ih, List.map_cons]

theorem memberTexts_eq_map (members : List (String × Value)) :
    Value.memberTexts members = members.map fun m => memberText m.1 m.2.chars := by
  induction members with
  | nil => rfl
  | cons m members ih =>
    obtain ⟨key, v⟩ := m
    rw [Value.memberTexts, ih, List.map_cons]

theorem ofChars_listText (opening closing : Char) (texts : List (List Char)) (t : Input) :
    Input.ofChars (listText opening closing texts) ++ t
      = some opening :: (Input.ofChars ([','].intercalate texts) ++ some closing :: t) := by
  simp [Input.ofChars, listText]

theorem ofChars_memberText (key : String) (value : List Char) (t : Input) :
    Input.ofChars (memberText key value) ++ t
      = Input.ofChars (stringText key) ++ some ':' :: (Input.ofChars value ++ t) := by
  simp [Input.ofChars, memberText]

end SecretClient.Json
