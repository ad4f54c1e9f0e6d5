import SecretClient.Proofs.Json.Fits
import SecretClient.Proofs.Json.Layout

/-!
# Readers in front of a text

`Follows p text result` says all that the reader `p` makes of a text: it takes the text for the
result, whatever stands behind it, or it fails if there is no result. It is stated of one text and
its result, and composed from the texts of items.

* `reads_items_iff_of_laid`, `follows_member` : containers and members are followed if their parts are
* `decode_eq_ok_iff_of_follows` : what a whole text is decoded as
-/

namespace SecretClient.Json

open Utf8 (mapM_eq_some_iff)

variable {α β γ κ : Type}

/-! ## Following a text -/

/-- In front of what ends a number, the reader takes the text for the result, and for nothing if there
is none. -/
def Follows (p : Reader α) (text : List Char) (result : Option α) : Prop :=
  ∀ t, Stops t → ∀ a u, Reads p (Input.ofChars text ++ t) a u ↔ result = some a ∧ u = t

theorem follows_mapValue {p : Reader α} {text : List Char} {result : Option α}
    (h : Follows p text result) (f : α → β) :
    Follows (fun s => mapValue f (p s)) text (result.map f) := by
  intro t ht b u
  rw [reads_mapValue, Option.map_eq_some_iff]
  constructor
  · rintro ⟨a, ha, rfl⟩
    obtain ⟨hresult, hu⟩ := (h t ht a u).mp ha
    exact ⟨⟨a, hresult, rfl⟩, hu⟩
  · rintro ⟨⟨a, hresult, rfl⟩, hu⟩
    exact ⟨a, (h t ht a u).mpr ⟨hresult, hu⟩, rfl⟩

/-- A reader that reads one result in any case follows it. -/
theorem follows_of_reads {p : Reader α} {text : List Char} {a : α}
    (h : ∀ t, Stops t → Reads p (Input.ofChars text ++ t) a t) : Follows p text (some a) := by
  intro t ht b u
  constructor
  · intro hread
    obtain ⟨rfl, rfl⟩ := (h t ht).unique hread
    exact ⟨rfl, rfl⟩
  · rintro ⟨hb, rfl⟩
    cases hb
    exact h u ht

theorem follows_none {p : Reader α} {text : List Char}
    (h : ∀ t, Stops t → ∀ a u, ¬ Reads p (Input.ofChars text ++ t) a u) : Follows p text none := by
  intro t ht a u
  constructor
  · intro hread
    exact absurd hread (h t ht a u)
  · rintro ⟨hnone, -⟩
    cases hnone

/-- What a reader follows is what a whole text is decoded as. -/
theorem decode_eq_ok_iff_of_follows {p : Reader α} {v : Value} {result : Option α}
    (h : Follows p v.chars result) (a : α) : decode p v.text = .ok a ↔ result = some a := by
  have htext : v.text.toList = v.chars := String.toList_ofList
  have hiff := h [] stops_nil a
  rw [List.append_nil] at hiff
  rw [decode_ok_iff, htext]
  constructor
  · rintro ⟨t, hread, -⟩
    exact ((hiff t).mp hread).1
  · intro hresult
    exact ⟨[], (hiff []).mpr ⟨hresult, rfl⟩, rfl⟩

/-! ## Items and members -/

section

variable {next : Bool → (s : Input) → Except Fault (Next s)} {first : Bool} {s t u : Input}

theorem Begins.unique {b : Input} (h : Begins next first s b) (h' : Begins next first s t) :
    b = t := by
  have heq := h.symm.trans h'
  rw [Except.ok.injEq, Prod.mk.injEq] at heq
  exact heq.2

theorem Closes.unique (h : Closes next first s t) (h' : Closes next first s u) : t = u := by
  have heq := h.symm.trans h'
  rw [Except.ok.injEq, Prod.mk.injEq] at heq
  exact heq.2

theorem Closes.not_begins (h : Closes next first s t) : ¬ Begins next first s u := by
  intro h'
  cases h.symm.trans h'

variable {p : Reader α} {text : γ → List Char} {f : γ → Option α}

/-- **The items of a container are followed if each item is.** -/
theorem reads_items_iff_of_laid {gs : List γ} (h : ∀ g ∈ gs, Follows p (text g) (f g)) :
    ∀ {first : Bool} {s t : Input}, Laid next first s (gs.map text) t → ∀ as u,
      Reads (items next p first) s as u ↔ gs.mapM f = some as ∧ u = t := by
  induction gs with
  | nil =>
    intro first s t hlaid as u
    cases hlaid with
    | closed hcloses =>
      rw [reads_items, mapM_eq_some_iff]
      constructor
      · rintro (⟨rfl, hcloses'⟩ | ⟨a, rest, b, r, -, hbegins, -⟩)
        · exact ⟨rfl, hcloses'.unique hcloses⟩
        · exact absurd hbegins hcloses.not_begins
      · rintro ⟨has, rfl⟩
        exact Or.inl ⟨List.map_eq_nil_iff.mp has.symm, hcloses⟩
  | cons g gs ih =>
    intro first s t hlaid as u
    cases hlaid with
    | item hbegins hstops hlaid =>
      have hrest := ih (fun g hg => h g (List.mem_cons_of_mem _ hg)) hlaid
      have hitem := h g List.mem_cons_self _ hstops
      rw [reads_items, mapM_eq_some_iff]
      constructor
      · rintro (⟨-, hcloses⟩ | ⟨a, rest, b, r, rfl, hbegins', ha, hread⟩)
        · exact absurd hbegins hcloses.not_begins
        · cases hbegins'.unique hbegins
          obtain ⟨hg, rfl⟩ := (hitem a r).mp ha
          obtain ⟨hgs, rfl⟩ := (hrest rest u).mp hread
          rw [List.map_cons, List.map_cons, hg, mapM_eq_some_iff.mp hgs]
          exact ⟨rfl, rfl⟩
      · rintro ⟨has, rfl⟩
        cases as with
        | nil => cases has
        | cons a rest =>
          obtain ⟨hg, hgs⟩ := List.cons.inj has
          exact Or.inr ⟨a, rest, _, _, rfl, hbegins, (hitem a _).mpr ⟨hg, rfl⟩,
            (hrest rest u).mpr ⟨mapM_eq_some_iff.mpr hgs, rfl⟩⟩

/-- The items of a container are read if each item is. -/
theorem reads_items_of_laid {text : α → List Char} {as : List α}
    (h : ∀ a ∈ as, ∀ t, Stops t → Reads p (Input.ofChars (text a) ++ t) a t)
    (hlaid : Laid next first s (as.map text) t) : Reads (items next p first) s as t :=
  (reads_items_iff_of_laid (fun a ha => follows_of_reads (h a ha)) hlaid as t).mpr
    ⟨mapM_eq_some_iff.mpr rfl, rfl⟩

theorem follows_member {key : Reader κ} {value : κ → Reader α} {name : String} {k : κ}
    {chars : List Char} {result : Option α}
    (hkey : ∀ t, Reads key (Input.ofChars (stringText name) ++ t) k t)
    (h : Follows (value k) chars result) :
    Follows (member key value) (memberText name chars) (result.map (k, ·)) := by
  intro t ht m u
  rw [reads_member, ofChars_memberText, Option.map_eq_some_iff]
  constructor
  · rintro ⟨r, r', hread, hcolon, hvalue⟩
    obtain ⟨hm, rfl⟩ := (hkey _).unique hread
    cases hcolon
    rw [← hm] at hvalue
    obtain ⟨hresult, rfl⟩ := (h t ht m.2 u).mp hvalue
    exact ⟨⟨m.2, hresult, by rw [hm]⟩, rfl⟩
  · rintro ⟨⟨a, hresult, rfl⟩, rfl⟩
    exact ⟨_, _, hkey _, rfl, (h u ht a u).mpr ⟨hresult, rfl⟩⟩

end

end SecretClient.Json
