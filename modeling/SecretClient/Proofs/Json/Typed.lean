import SecretClient.Proofs.Json.Roundtrip

/-!
# Values of a known shape

The readers of values of a known shape work on the text of a value. What they make of it is what is
decoded from the value itself, by functions that see no text (`Value.text?` and the like).

* `follows_textReader`, `follows_naturalReader` : texts and natural numbers
* `follows_listReader`, `follows_mapReader` : containers of what a reader follows
-/

namespace SecretClient.Json

open Utf8 (mapM_eq_some_iff)

variable {α β : Type}

/-! ## Decoding values -/

namespace Value

/-- The text that a value is. -/
def text? : Value → Option String
  | .string s => some s
  | _ => none

/-- The natural number that a value is; a floating point number is none. -/
def natural? : Value → Option Nat
  | .number (.integer n) => if 0 ≤ n then some n.toNat else none
  | _ => none

/-- The elements of a list, each decoded. -/
def listOf? (f : Value → Option α) : Value → Option (List α)
  | .array vs => vs.mapM f
  | _ => none

/-- The members of an object, each decoded. -/
def mapOf? (f : Value → Option α) : Value → Option (List (String × α))
  | .object members => members.mapM fun m => (f m.2).map (m.1, ·)
  | _ => none

/-- The fields of a record, each decoded: all elements of a list in their order, or members of an
object by their names. -/
def fieldsOf? (f : Value → Option α) (fields : List String) : Value → Option (List α)
  | .array vs => if vs.length = fields.length then vs.mapM f else none
  | .object members => fields.mapM fun name => (members.lookup name).bind f
  | _ => none

end Value

/-! ## What is decoded -/

/-- Where a decoder gives what is found in one way, lists are decoded likewise. -/
theorem mapM_eq_some_iff_map {γ : Type} {f : α → Option β} {found : α → γ} {g : β → γ}
    (h : ∀ a b, f a = some b ↔ found a = g b) {as : List α} {bs : List β} :
    as.mapM f = some bs ↔ as.map found = bs.map g := by
  rw [mapM_eq_some_iff]
  induction as generalizing bs with
  | nil => cases bs <;> simp
  | cons a as ih =>
    cases bs with
    | nil => simp
    | cons b bs =>
      simp only [List.map_cons, List.cons.injEq]
      rw [h, ih]

namespace Value

theorem text?_eq_some_iff (v : Value) (s : String) : v.text? = some s ↔ v = .string s := by
  cases v <;> simp [text?]

theorem natural?_eq_some_iff (v : Value) (n : Nat) :
    v.natural? = some n ↔ v = .number (.integer n) := by
  cases v with
  | number m =>
    cases m with
    | integer k =>
      simp only [natural?, number.injEq, Number.integer.injEq]
      split
      · rw [Option.some.injEq]
        omega
      · simp only [reduceCtorEq, false_iff]
        omega
    | float x => simp [natural?]
  | _ => simp [natural?]

theorem listOf?_natural_eq_some_iff (v : Value) (ns : List Nat) :
    v.listOf? natural? = some ns ↔ v = .array (ns.map fun n : Nat => .number (.integer n)) := by
  cases v with
  | array vs =>
    rw [listOf?, mapM_eq_some_iff_map natural?_eq_some_iff, List.map_id', array.injEq]
  | _ => simp [listOf?]

/-- The natural numbers of a list that was read are of 64 bits. -/
theorem listOf?_natural_iff {d : Nat} {v : Value} (h : v.Fits d) (ns : List Nat) :
    v.listOf? natural? = some ns ↔
      v = .array (ns.map fun n : Nat => .number (.integer n)) ∧ ∀ n ∈ ns, n < 2 ^ 64 := by
  rw [listOf?_natural_eq_some_iff]
  constructor
  · rintro rfl
    refine ⟨rfl, fun n hn => ?_⟩
    cases h with
    | array hvs =>
      cases hvs _ (List.mem_map_of_mem hn) with
      | integer hmin hmax =>
        have hbound : maxInteger = 2 ^ 64 - 1 := by decide
        omega
  · exact And.left

theorem mapOf?_text_iff (v : Value) (members : List (String × String)) :
    v.mapOf? text? = some members ↔ v = .object (members.map fun m => (m.1, .string m.2)) := by
  have hmember : ∀ (m : String × Value) (n : String × String),
      (m.2.text?).map (m.1, ·) = some n ↔ m = (n.1, .string n.2) := by
    rintro ⟨key, v⟩ ⟨key', s⟩
    rw [Option.map_eq_some_iff]
    constructor
    · rintro ⟨a, ha, heq⟩
      cases heq
      rw [(text?_eq_some_iff v s).mp ha]
    · intro heq
      cases heq
      exact ⟨s, rfl, rfl⟩
  cases v with
  | object listed => rw [mapOf?, mapM_eq_some_iff_map hmember, List.map_id', object.injEq]
  | _ => simp [mapOf?]

/-- The texts of a record are all elements of a list, or the members of an object with the names. -/
theorem fieldsOf?_text_iff (v : Value) (fields as : List String) :
    v.fieldsOf? text? fields = some as ↔
      (∃ members, v = .object members ∧
        (fields.map fun name => members.lookup name) = as.map fun s => some (.string s)) ∨
      (v = .array (as.map .string) ∧ as.length = fields.length) := by
  cases v with
  | object members =>
    have hfield : ∀ (name : String) (s : String), (members.lookup name).bind text? = some s ↔
        members.lookup name = some (.string s) := by
      intro name s
      rw [Option.bind_eq_some_iff]
      constructor
      · rintro ⟨v, hv, hs⟩
        rw [hv, (text?_eq_some_iff v s).mp hs]
      · intro hv
        exact ⟨_, hv, rfl⟩
    rw [fieldsOf?, mapM_eq_some_iff_map hfield]
    simp
  | array vs =>
    rw [fieldsOf?]
    split
    · next hlength =>
      rw [mapM_eq_some_iff_map text?_eq_some_iff, List.map_id']
      constructor
      · rintro rfl
        rw [List.length_map] at hlength
        exact Or.inr ⟨rfl, hlength⟩
      · rintro (⟨members, heq, -⟩ | ⟨heq, -⟩)
        · cases heq
        · exact array.inj heq
    · next hlength =>
      simp only [reduceCtorEq, false_and, exists_false, array.injEq, false_or, false_iff, not_and]
      rintro rfl
      rw [List.length_map] at hlength
      exact hlength
  | _ => simp [fieldsOf?]

end Value

/-! ## How the text of a value begins -/

theorem dropWhile_chars (v : Value) (t : Input) :
    (Input.ofChars v.chars ++ t).dropWhile isBlank = Input.ofChars v.chars ++ t :=
  dropWhile_of_startsElement (startsElement_of_opens (opens_chars v) t)

/-- The characters with which the texts of values begin. -/
inductive Value.Opening : Value → Char → Prop
  | null : Opening .null 'n'
  | false : Opening (.bool Bool.false) 'f'
  | true : Opening (.bool Bool.true) 't'
  | number (n : Number) {c : Char} : beginsNumber (some c) = Bool.true → Opening (.number n) c
  | string (s : String) : Opening (.string s) '"'
  | array (vs : List Value) : Opening (.array vs) '['
  | object (members : List (String × Value)) : Opening (.object members) '\x7b'

theorem opening_of_chars {v : Value} {c : Char} {rest : List Char} (h : v.chars = c :: rest) :
    v.Opening c := by
  cases v with
  | null => exact (List.cons.inj h).1 ▸ .null
  | bool b =>
    cases b with
    | false => exact (List.cons.inj h).1 ▸ .false
    | true => exact (List.cons.inj h).1 ▸ .true
  | number n =>
    obtain ⟨d, r, htext, hbegins⟩ := exists_numberText n
    have hd : d = c := (List.cons.inj (htext.symm.trans h)).1
    exact .number n (hd ▸ hbegins)
  | string s => exact (List.cons.inj h).1 ▸ .string s
  | array vs => exact (List.cons.inj h).1 ▸ .array vs
  | object members => exact (List.cons.inj h).1 ▸ .object members

/-- A value whose text begins with a character in some input has it as its opening. -/
theorem opening_of_ofChars {v : Value} {t r : Input} {c : Char}
    (h : Input.ofChars v.chars ++ t = some c :: r) : v.Opening c := by
  obtain ⟨d, rest, hchars, -⟩ := opens_chars v
  rw [hchars, ofChars_cons] at h
  exact Option.some.inj (List.cons.inj h).1 ▸ opening_of_chars hchars

theorem reads_beginning_chars {wanted : Wanted} {first : Char} {p : Reader α} {v : Value}
    {t u : Input} {a : α} :
    Reads (beginning wanted first p) (Input.ofChars v.chars ++ t) a u ↔
      ∃ r, Input.ofChars v.chars ++ t = some first :: r ∧ Reads p r a u := by
  rw [reads_beginning, dropWhile_chars]

theorem not_opening_number (n : Number) {c : Char} (hc : beginsNumber (some c) = false) :
    ¬ (Value.number n).Opening c := by
  intro h
  cases h with
  | number n hbegins =>
    rw [hc] at hbegins
    cases hbegins

/-- No result is found where the text of the value begins in another way. -/
theorem follows_beginning_none {wanted : Wanted} {first : Char} {p : Reader α} {v : Value}
    (h : ¬ v.Opening first) : Follows (beginning wanted first p) v.chars none := by
  refine follows_none fun t _ a u hread => ?_
  obtain ⟨r, hr, -⟩ := reads_beginning_chars.mp hread
  exact h (opening_of_ofChars hr)

/-! ## Texts -/

theorem follows_textReader (v : Value) : Follows textReader v.chars v.text? := by
  cases v with
  | string s =>
    refine follows_of_reads fun t _ => reads_beginning_chars.mpr ⟨_, ?_, reads_stringTail s t⟩
    exact ofChars_stringText s t
  | null => exact follows_beginning_none nofun
  | bool b => exact follows_beginning_none nofun
  | number n => exact follows_beginning_none (not_opening_number n (by decide))
  | array vs => exact follows_beginning_none nofun
  | object members => exact follows_beginning_none nofun

/-! ## Natural numbers -/

theorem reads_naturalReader {s t : Input} {n : Nat} :
    Reads naturalReader s n t ↔ ∃ c r m, s.dropWhile isBlank = c :: r ∧ beginsNumber c = true ∧
      Reads number (c :: r) (.integer m) t ∧ 0 ≤ m ∧ n = m.toNat := by
  unfold naturalReader
  rw [reads_padded]
  generalize s.dropWhile isBlank = s
  cases s with
  | nil =>
    constructor
    · intro h
      cases h
    · rintro ⟨c, r, m, hs, -⟩
      cases hs
  | cons c r =>
    unfold Reads
    dsimp only
    constructor
    · intro h
      split at h
      · next hbegins =>
        split at h
        · cases h
        · next m r' hm =>
          split at h
          · next hpos =>
            cases h
            exact ⟨c, r, m, rfl, hbegins, by rw [hm]; rfl, hpos, rfl⟩
          · cases h
        · cases h
      · cases h
    · rintro ⟨c', r', m, hs, hbegins, hread, hpos, rfl⟩
      cases hs
      obtain ⟨r', hm, rfl⟩ := Reads.exists_ok hread
      rw [if_pos hbegins, hm]
      dsimp only
      rw [if_pos hpos]
      rfl

/-- Reading a number in front of a value finds the text of a number. -/
theorem reads_naturalReader_number {m : Number} {t u : Input} {n : Nat} :
    Reads naturalReader (Input.ofChars (Value.number m).chars ++ t) n u ↔
      ∃ k, Reads number (Input.ofChars m.text ++ t) (.integer k) u ∧ 0 ≤ k ∧ n = k.toNat := by
  obtain ⟨c, r, htext, hbegins⟩ := exists_numberText m
  rw [reads_naturalReader, dropWhile_chars, Value.chars, htext, ofChars_cons]
  constructor
  · rintro ⟨c', r', k, hs, -, hread, hk⟩
    rw [hs]
    exact ⟨k, hread, hk⟩
  · rintro ⟨k, hread, hk⟩
    exact ⟨_, _, k, rfl, hbegins, hread, hk⟩

theorem follows_naturalReader {d : Nat} {v : Value} (h : v.Fits d) :
    Follows naturalReader v.chars v.natural? := by
  -- what does not begin with a sign or a digit is no number
  have hother : (∀ n, v ≠ .number n) → Follows naturalReader v.chars none := by
    refine fun hv => follows_none fun t _ a u hread => ?_
    obtain ⟨c, r, m, hs, hbegins, -⟩ := reads_naturalReader.mp hread
    rw [dropWhile_chars] at hs
    cases c with
    | none => cases hbegins
    | some c =>
      cases opening_of_ofChars hs with
      | number n => exact hv n rfl
      | null | false | true | string | array | object => cases hbegins
  cases h with
  | @integer _ n hmin hmax =>
    intro t ht a u
    have hread := reads_integerText hmin hmax ht
    rw [reads_naturalReader_number, Value.natural?]
    constructor
    · rintro ⟨k, hk, hpos, rfl⟩
      obtain ⟨heq, rfl⟩ := hread.unique hk
      cases heq
      rw [if_pos hpos]
      exact ⟨rfl, rfl⟩
    · rintro ⟨hn, rfl⟩
      split at hn
      · next hpos =>
        cases hn
        exact ⟨n, hread, hpos, rfl⟩
      · cases hn
  | float x =>
    refine follows_none fun t ht a u hread => ?_
    obtain ⟨k, hk, -⟩ := reads_naturalReader_number.mp hread
    rcases outcome_floatText x ht with ⟨y, hy⟩ | herror
    · cases (hy.unique hk).1
    · rw [Reads, herror] at hk
      cases hk
  | null | bool b | string s | array | object =>
    refine hother fun n hn => ?_
    cases hn

/-! ## Lists and maps -/

section

variable {p : Reader α} {f : Value → Option α} {d : Nat} {v : Value}

theorem ofChars_array (vs : List Value) (t : Input) :
    Input.ofChars (Value.array vs).chars ++ t
      = some '[' :: (Input.ofChars ([','].intercalate (vs.map Value.chars)) ++ some ']' :: t) := by
  rw [Value.chars, itemTexts_eq_map, ofChars_listText]

theorem ofChars_object (members : List (String × Value)) (t : Input) :
    Input.ofChars (Value.object members).chars ++ t
      = some '\x7b' :: (Input.ofChars ([','].intercalate
        (members.map fun m => memberText m.1 m.2.chars)) ++ some '\x7d' :: t) := by
  rw [Value.chars, memberTexts_eq_map, ofChars_listText]

theorem reads_beginning_cons {wanted : Wanted} {first : Char} {q : Reader β} {s t : Input} {b : β}
    (hfirst : isBlank (some first) = false) :
    Reads (beginning wanted first q) (some first :: s) b t ↔ Reads q s b t := by
  rw [reads_beginning, List.dropWhile_cons_of_neg (by rw [hfirst]; exact Bool.false_ne_true)]
  constructor
  · rintro ⟨r, hr, hread⟩
    rw [(List.cons.inj hr).2]
    exact hread
  · intro hread
    exact ⟨s, rfl, hread⟩

/-- Members that keep their keys keep their order. -/
theorem keysOrdered_of_mapM {g : String × β → Option (String × α)} {members : List (String × β)}
    {listed : List (String × α)} (h : KeysOrdered members) (hkey : ∀ m n, g m = some n → n.1 = m.1)
    (hlisted : members.mapM g = some listed) : KeysOrdered listed := by
  have hkeys : ∀ {members : List (String × β)} {listed : List (String × α)},
      members.map g = listed.map some → listed.map Prod.fst = members.map Prod.fst := by
    intro members
    induction members with
    | nil =>
      intro listed heq
      rw [List.map_eq_nil_iff.mp heq.symm]
      rfl
    | cons m members ih =>
      intro listed heq
      cases listed with
      | nil => cases heq
      | cons n listed =>
        obtain ⟨hm, hrest⟩ := List.cons.inj heq
        rw [List.map_cons, List.map_cons, hkey m n hm, ih hrest]
  have hpairwise := List.pairwise_map (R := (· < ·)).mpr h
  rw [← hkeys (mapM_eq_some_iff.mp hlisted)] at hpairwise
  exact List.pairwise_map.mp hpairwise

/-- **A reader of lists follows the elements.** -/
theorem follows_listReader (h : ∀ {d v}, v.Fits d → Follows p v.chars (f v)) (hv : v.Fits d) :
    Follows (listReader p) v.chars (v.listOf? f) := by
  cases hv with
  | @array d vs hvs =>
    intro t _ as u
    rw [Value.listOf?, ofChars_array]
    exact (reads_beginning_cons (by decide)).trans
      (reads_items_iff_of_laid (fun v hv => h (hvs v hv)) (laid_elements vs t) as u)
  | null => exact follows_beginning_none nofun
  | bool b => exact follows_beginning_none nofun
  | integer => exact follows_beginning_none (not_opening_number _ (by decide))
  | float x => exact follows_beginning_none (not_opening_number _ (by decide))
  | string s => exact follows_beginning_none nofun
  | object => exact follows_beginning_none nofun

/-- **A reader of maps follows the values of the members.** -/
theorem follows_mapReader (h : ∀ {d v}, v.Fits d → Follows p v.chars (f v)) (hv : v.Fits d) :
    Follows (mapReader p) v.chars (v.mapOf? f) := by
  cases hv with
  | @object d members hordered hmembers =>
    intro t _ as u
    unfold mapReader
    rw [Value.mapOf?, ofChars_object, reads_beginning_cons (by decide), reads_mapValue]
    have hmember : ∀ m ∈ members, Follows (member string fun _ => p) (memberText m.1 m.2.chars)
        ((f m.2).map (m.1, ·)) :=
      fun m hm => follows_member (reads_stringText m.1) (h (hmembers m hm))
    have hitems := reads_items_iff_of_laid hmember (laid_members members t)
    -- the members are listed in order, so collecting them changes nothing
    have hcollect : ∀ {listed : List (String × α)},
        (members.mapM fun m => (f m.2).map (m.1, ·)) = some listed →
          collectMembers listed = listed := by
      intro listed hlisted
      refine collectMembers_of_keysOrdered (keysOrdered_of_mapM hordered (fun m n hn => ?_) hlisted)
      obtain ⟨a, -, rfl⟩ := Option.map_eq_some_iff.mp hn
      rfl
    constructor
    · rintro ⟨listed, hread, rfl⟩
      obtain ⟨hlisted, rfl⟩ := (hitems listed u).mp hread
      exact ⟨by rw [hcollect hlisted]; exact hlisted, rfl⟩
    · rintro ⟨hlisted, rfl⟩
      exact ⟨as, (hitems as u).mpr ⟨hlisted, rfl⟩, hcollect hlisted⟩
  | null => exact follows_beginning_none nofun
  | bool b => exact follows_beginning_none nofun
  | integer => exact follows_beginning_none (not_opening_number _ (by decide))
  | float x => exact follows_beginning_none (not_opening_number _ (by decide))
  | string s => exact follows_beginning_none nofun
  | array => exact follows_beginning_none nofun

end

end SecretClient.Json
