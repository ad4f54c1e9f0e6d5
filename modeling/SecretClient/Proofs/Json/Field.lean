import Mathlib.Data.List.Forall2
import SecretClient.Proofs.Json.Decoding

/-!
# Fields

A record of one field has it as the member of an object or as the element of a list. In a tree the
member must stand alone: it is a fault to list it twice. In a value the last member of a key has taken
the place of the others, so the two agree where nothing is repeated.

* `Tree.field?_eq_some_iff` : what is decoded as a field
* `Tree.value_field_iff` : the fields of a tree and those of its value
* `Tree.AgreeOn.field` : trees that agree on some fields have these alike, whatever else they list
-/

namespace SecretClient.Json

open Utf8 (mapM_eq_some_iff)

variable {α β κ : Type}

/-! ## The members of a key -/

section

variable [DecidableEq κ]

/-- What the members of a key hold, in the order in which they are listed. -/
def held (key : κ) (ms : List (κ × α)) : List α :=
  ms.filterMap fun m => if m.1 = key then some m.2 else none

theorem mem_held {key : κ} {ms : List (κ × α)} {a : α} : a ∈ held key ms ↔ (key, a) ∈ ms := by
  simp [held]

end

/-- The last member of a key is the first from behind. -/
theorem lookup_reverse (listed : List (String × α)) (name : String) :
    listed.reverse.lookup name = (held name listed).getLast? := by
  unfold held
  induction listed using List.reverseRecOn with
  | nil => rfl
  | append_singleton listed m ih =>
    obtain ⟨key, a⟩ := m
    rw [List.reverse_append, List.filterMap_append]
    by_cases hkey : key = name
    · subst hkey
      simp
    · simp [hkey, lookup_cons_of_ne hkey, ih]

/-- What is decoded of a list is decoded of what is selected from it. -/
theorem filterMap_of_mapM {γ δ : Type} {g : α → Option β} {p : α → Option γ} {q : β → Option δ}
    {f : γ → Option δ} (h : ∀ a b, g a = some b → (p a).map f = (q b).map some) {as : List α} :
    ∀ {bs : List β}, as.mapM g = some bs → (as.filterMap p).mapM f = some (bs.filterMap q) := by
  induction as with
  | nil =>
    intro bs hbs
    cases hbs
    rfl
  | cons a as ih =>
    intro bs hbs
    obtain ⟨b, rest, rfl, hb, hrest⟩ := mapM_cons_eq_some_iff.mp hbs
    have hab := h a b hb
    cases hp : p a with
    | none =>
      rw [hp] at hab
      rw [List.filterMap_cons_none hp, List.filterMap_cons_none (Option.map_eq_none_iff.mp hab.symm)]
      exact ih hrest
    | some c =>
      rw [hp] at hab
      obtain ⟨d, hd, hdf⟩ := Option.map_eq_some_iff.mp hab.symm
      rw [List.filterMap_cons_some hp, List.filterMap_cons_some hd]
      exact mapM_cons_eq_some_iff.mpr ⟨d, _, rfl, hdf.symm, ih hrest⟩

/-! ## The fields of trees -/

namespace Tree

/-- The keys of all members are texts. -/
def Keyed (ms : List (Option String × Tree)) : Prop := ∀ m ∈ ms, m.1.isSome = true

/-- What a record of one field has as its field: the element of a list that has no other, or what the
only member of the name holds. -/
inductive Field (name : String) : Tree → Tree → Prop
  | element {o : Tree} : Field name (.array [o]) o
  | member {ms : List (Option String × Tree)} {o : Tree} : Keyed ms → held (some name) ms = [o] →
      Field name (.object ms) o

/-- The tree is an object that lists members of the name more than once. -/
def Repeats (name : String) : Tree → Prop
  | .object ms => 1 < (held (some name) ms).length
  | _ => False

variable {f : Tree → Option α} {name : String}

/-- A record has one field of a name at most. -/
theorem Field.unique {o x y : Tree} (hx : o.Field name x) (hy : o.Field name y) : x = y := by
  cases hx with
  | element =>
    cases hy
    rfl
  | member _ hx =>
    cases hy with
    | member _ hy => exact (List.cons.inj (hx.symm.trans hy)).1

/-- A field that is repeated is none. -/
theorem Repeats.not_field {o x : Tree} (h : o.Repeats name) : ¬ o.Field name x := by
  intro hx
  cases hx with
  | element => exact h
  | @member ms _ _ hx =>
    change 1 < (held (some name) ms).length at h
    rw [hx] at h
    exact absurd h (Nat.lt_irrefl 1)

/-- Members are decoded only if their keys are texts. -/
theorem keyed_of_mapM {g : Option String × Tree → Option β} (hg : ∀ o, g (none, o) = none)
    {ms : List (Option String × Tree)} {listed : List β} (h : ms.mapM g = some listed) :
    Keyed ms := by
  rintro ⟨_ | key, o⟩ hm
  · obtain ⟨b, hb⟩ := exists_of_mapM h hm
    rw [hg] at hb
    cases hb
  · rfl

/-- The values that are kept of the members with the name of the field. -/
theorem mapM_held_of_kept {ms : List (Option String × Tree)} {listed : List (String × Option α)}
    (h : ms.mapM (kept? f [name]) = some listed) :
    (held (some name) ms).mapM f = some (listedValues name listed) := by
  refine filterMap_of_mapM ?_ h
  rintro ⟨_ | key, o⟩ n hn
  · cases hn
  · obtain ⟨v, hv, rfl⟩ := Option.map_eq_some_iff.mp hn
    by_cases hkey : key = name
    · subst hkey
      rw [if_pos (List.mem_singleton_self _)] at hv
      obtain ⟨a, ha, rfl⟩ := Option.map_eq_some_iff.mp hv
      simp [ha]
    · simp [hkey]

theorem fieldsOf_one_iff {listed : List (String × Option α)} {a : α} :
    fieldsOf listed [name] = .ok [a] ↔ listedValues name listed = [a] := by
  unfold fieldsOf
  rcases listedValues name listed with _ | ⟨b, _ | ⟨c, rest⟩⟩
  · simp
  · simp [fieldsOf, Except.map]
  · simp

/-- Where the members of the name can be decoded, no other member is in the way. -/
theorem exists_kept {ms : List (Option String × Tree)} (hkeyed : Keyed ms)
    (h : ∀ o ∈ held (some name) ms, ∃ a, f o = some a) :
    ∃ listed, ms.mapM (kept? f [name]) = some listed := by
  refine exists_mapM ?_
  rintro ⟨_ | key, o⟩ hm
  · cases hkeyed _ hm
  · by_cases hkey : key = name
    · subst hkey
      obtain ⟨a, ha⟩ := h o (mem_held.mpr hm)
      exact ⟨(key, some a), by simp [kept?, ha]⟩
    · exact ⟨(key, none), by simp [kept?, hkey]⟩

theorem fields?_array_iff {os : List Tree} {a : α} :
    fields? f [name] (.array os) = some [a] ↔ ∃ x, os = [x] ∧ f x = some a := by
  rw [fields?, Option.ite_none_right_eq_some]
  constructor
  · rintro ⟨hlength, hos⟩
    obtain ⟨x, rfl⟩ := List.length_eq_one_iff.mp hlength
    obtain ⟨b, heq, hx⟩ := mapM_singleton_eq_some_iff.mp hos
    cases heq
    exact ⟨x, rfl, hx⟩
  · rintro ⟨x, rfl, hx⟩
    exact ⟨rfl, mapM_singleton_eq_some_iff.mpr ⟨a, rfl, hx⟩⟩

theorem fields?_object_iff {ms : List (Option String × Tree)} {a : α} :
    fields? f [name] (.object ms) = some [a] ↔
      Keyed ms ∧ ∃ x, held (some name) ms = [x] ∧ f x = some a := by
  simp only [fields?, Option.bind_eq_some_iff, toOption_eq_some_iff, fieldsOf_one_iff]
  constructor
  · rintro ⟨listed, hlisted, hone⟩
    have hvalues := mapM_held_of_kept hlisted
    rw [hone, mapM_eq_some_iff] at hvalues
    exact ⟨keyed_of_mapM (fun _ => rfl) hlisted, List.map_eq_singleton_iff.mp hvalues⟩
  · rintro ⟨hkeyed, x, hheld, hx⟩
    have hdecoded : ∀ o ∈ held (some name) ms, ∃ a, f o = some a := by
      intro o ho
      rw [hheld, List.mem_singleton] at ho
      exact ⟨a, ho ▸ hx⟩
    obtain ⟨listed, hlisted⟩ := exists_kept hkeyed hdecoded
    have hvalues := mapM_held_of_kept hlisted
    rw [hheld] at hvalues
    obtain ⟨b, hone, hb⟩ := mapM_singleton_eq_some_iff.mp hvalues
    cases hx.symm.trans hb
    exact ⟨listed, hlisted, hone⟩

/-- **What is decoded as a field is decoded of the field.** -/
theorem field?_eq_some_iff {o : Tree} {a : α} :
    field? f name o = some a ↔ ∃ x, o.Field name x ∧ f x = some a := by
  unfold field?
  simp only [Option.bind_eq_some_iff, only?_eq_some_iff, exists_eq_right]
  constructor
  · intro h
    cases o with
    | array os =>
      obtain ⟨x, rfl, hx⟩ := fields?_array_iff.mp h
      exact ⟨x, .element, hx⟩
    | object ms =>
      obtain ⟨hkeyed, x, hheld, hx⟩ := fields?_object_iff.mp h
      exact ⟨x, .member hkeyed hheld, hx⟩
    | null | bool | number | string => cases h
  · rintro ⟨x, hx, ha⟩
    cases hx with
    | element => exact fields?_array_iff.mpr ⟨x, rfl, ha⟩
    | member hkeyed hheld => exact fields?_object_iff.mpr ⟨hkeyed, x, hheld, ha⟩

end Tree

/-! ## The fields of values -/

/-- What a record of one field has as its field in a value: the element of a list that has no other,
or the member of an object. -/
inductive Value.Field (name : String) : Value → Value → Prop
  | element {v : Value} : Field name (.array [v]) v
  | member {members : List (String × Value)} {v : Value} : members.lookup name = some v →
      Field name (.object members) v

namespace Tree

variable {name : String} {d : Nat}

/-- The values that are kept of the members of a key. -/
theorem mapM_held_of_members {ms : List (Option String × Tree)} {listed : List (String × Value)}
    (h : ms.mapM (fun (m : Option String × Tree) =>
      m.1.bind fun key => (value? d m.2).map (key, ·)) = some listed) :
    (held (some name) ms).mapM (value? d) = some (held name listed) := by
  refine filterMap_of_mapM ?_ h
  rintro ⟨_ | key, o⟩ n hn
  · cases hn
  · obtain ⟨v, hv, rfl⟩ := Option.map_eq_some_iff.mp hn
    by_cases hkey : key = name
    · subst hkey
      simp [hv]
    · simp [hkey]

/-- A field of a tree that has a value has one itself. -/
theorem Field.exists_value? {o x : Tree} {v : Value} (hx : o.Field name x)
    (h : o.value? (d + 1) = some v) : ∃ w, x.value? d = some w := by
  cases hx with
  | element =>
    obtain ⟨vs, hvs, -⟩ := Option.map_eq_some_iff.mp h
    exact exists_of_mapM hvs (List.mem_singleton_self x)
  | @member ms _ _ hheld =>
    obtain ⟨listed, hlisted, -⟩ := Option.map_eq_some_iff.mp h
    have hvalues : (held (some name) ms).mapM (value? d) = some (held name listed) :=
      mapM_held_of_members hlisted
    exact exists_of_mapM hvalues (hheld ▸ List.mem_singleton_self x)

/-- A key that is listed once is looked up as its value. -/
theorem lookup_members_iff {ms : List (Option String × Tree)} {listed : List (String × Value)}
    (h : ms.mapM (fun (m : Option String × Tree) =>
      m.1.bind fun key => (value? d m.2).map (key, ·)) = some listed)
    (honce : ¬ 1 < (held (some name) ms).length) {w : Value} :
    (collectMembers listed).lookup name = some w ↔
      ∃ x, held (some name) ms = [x] ∧ x.value? d = some w := by
  have hvalues : (held (some name) ms).mapM (value? d) = some (held name listed) :=
    mapM_held_of_members h
  rw [lookup_collectMembers, lookup_reverse]
  rcases hheld : held (some name) ms with _ | ⟨x, _ | ⟨y, rest⟩⟩
  · rw [hheld, mapM_eq_some_iff] at hvalues
    rw [List.map_eq_nil_iff.mp hvalues.symm]
    simp
  · rw [hheld] at hvalues
    obtain ⟨b, hb, hx⟩ := mapM_singleton_eq_some_iff.mp hvalues
    rw [hb]
    simp [hx]
  · rw [hheld] at honce
    exact absurd (by simp) honce

/-- **A tree that does not repeat a field has it where its value does.** -/
theorem value_field_iff {o : Tree} {v w : Value} (h : o.value? (d + 1) = some v)
    (hrepeats : ¬ o.Repeats name) :
    v.Field name w ↔ ∃ x, o.Field name x ∧ x.value? d = some w := by
  cases o with
  | null | bool =>
    cases h
    refine ⟨fun hw => ?_, fun ⟨x, hx, _⟩ => ?_⟩
    · cases hw
    · cases hx
  | number | string =>
    obtain ⟨n, -, rfl⟩ := Option.map_eq_some_iff.mp h
    refine ⟨fun hw => ?_, fun ⟨x, hx, _⟩ => ?_⟩
    · cases hw
    · cases hx
  | array os =>
    obtain ⟨vs, hvs, rfl⟩ := Option.map_eq_some_iff.mp h
    constructor
    · intro hw
      cases hw
      obtain ⟨x, rfl, hx⟩ := List.map_eq_singleton_iff.mp (mapM_eq_some_iff.mp hvs)
      exact ⟨x, .element, hx⟩
    · rintro ⟨x, hx, hw⟩
      cases hx
      obtain ⟨b, rfl, hb⟩ := mapM_singleton_eq_some_iff.mp hvs
      cases hw.symm.trans hb
      exact .element
  | object ms =>
    obtain ⟨listed, hlisted, rfl⟩ := Option.map_eq_some_iff.mp h
    have hlookup : (collectMembers listed).lookup name = some w ↔
        ∃ x, held (some name) ms = [x] ∧ x.value? d = some w := lookup_members_iff hlisted hrepeats
    constructor
    · intro hw
      cases hw with
      | member hw =>
        obtain ⟨x, hheld, hx⟩ := hlookup.mp hw
        exact ⟨x, .member (keyed_of_mapM (fun _ => rfl) hlisted) hheld, hx⟩
    · rintro ⟨x, hx, hw⟩
      cases hx with
      | member _ hheld => exact .member (hlookup.mpr ⟨x, hheld, hw⟩)

/-- Only a text has a text for its value. -/
theorem value?_eq_string {o : Tree} {t : String} :
    o.value? d = some (.string t) ↔ o = .string (some t) := by
  cases d <;> cases o <;> simp [value?]

/-! ## Trees that agree on fields -/

/-- The trees agree but for members that are not asked for: they have the same elements, or the same
members with the first of the names, and what those hold agrees for the names behind it. -/
def AgreeOn : List String → Tree → Tree → Prop
  | [], o, o' => o = o'
  | name :: names, o, o' =>
    o = o' ∨
    (∃ os os', o = .array os ∧ o' = .array os' ∧ List.Forall₂ (AgreeOn names) os os') ∨
    ∃ ms ms', o = .object ms ∧ o' = .object ms' ∧ Keyed ms ∧ Keyed ms' ∧
      List.Forall₂ (AgreeOn names) (held (some name) ms) (held (some name) ms')

theorem AgreeOn.refl (names : List String) (o : Tree) : AgreeOn names o o := by
  cases names with
  | nil => rfl
  | cons => exact Or.inl rfl

theorem AgreeOn.symm {names : List String} {o o' : Tree} (h : AgreeOn names o o') :
    AgreeOn names o' o := by
  have hflip : ∀ {names : List String} {os os' : List Tree},
      (∀ {o o' : Tree}, AgreeOn names o o' → AgreeOn names o' o) →
      List.Forall₂ (AgreeOn names) os os' → List.Forall₂ (AgreeOn names) os' os := by
    intro names os os' hsymm h
    exact (List.Forall₂.imp (fun _ _ => hsymm) h).flip
  induction names generalizing o o' with
  | nil => exact Eq.symm h
  | cons name names ih =>
    rcases h with rfl | ⟨os, os', rfl, rfl, h⟩ | ⟨ms, ms', rfl, rfl, hms, hms', h⟩
    · exact .refl _ _
    · exact Or.inr (Or.inl ⟨os', os, rfl, rfl, hflip ih h⟩)
    · exact Or.inr (Or.inr ⟨ms', ms, rfl, rfl, hms', hms, hflip ih h⟩)

/-- **Trees that agree have the field alike, whatever else they list.** -/
theorem AgreeOn.field {names : List String} {o o' x : Tree} (h : AgreeOn (name :: names) o o')
    (hx : o.Field name x) : ∃ x', o'.Field name x' ∧ AgreeOn names x x' := by
  rcases h with rfl | ⟨os, os', rfl, rfl, h⟩ | ⟨ms, ms', rfl, rfl, -, hms', h⟩
  · exact ⟨x, hx, .refl _ _⟩
  · cases hx
    cases h with
    | cons hx hrest =>
      cases hrest
      exact ⟨_, .element, hx⟩
  · cases hx with
    | member _ hheld =>
      rw [hheld] at h
      generalize hheld' : held (some name) ms' = held' at h
      cases h with
      | cons hx hrest =>
        cases hrest
        exact ⟨_, .member hms' hheld', hx⟩

end Tree

end SecretClient.Json
