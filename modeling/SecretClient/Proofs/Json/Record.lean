import SecretClient.Proofs.Json.Skip
import SecretClient.Proofs.Json.Typed

/-!
# Records

A record is read from a list or from an object. The elements of a list are its fields in their order,
and no other number of them will do. The members of an object are fields if they are called like one;
the others are passed, whatever they are.

* `reads_fieldElements_iff_of_laid`, `reads_fieldMembers_iff_of_laid` : the fields in either form
* `follows_recordReader`, `follows_fieldReader` : records, and records of one field
-/

namespace SecretClient.Json

open Utf8 (mapM_eq_some_iff)

variable {α β : Type}

/-! ## The elements of a record -/

section

variable {type : RecordType} {p : Reader α} {f : Value → Option α}

theorem listEnd_ok_iff {s t : Input} :
    (∃ r : Rest s, listEnd s = .ok r ∧ r.1 = t) ↔ s.dropWhile isBlank = some ']' :: t := by
  unfold listEnd
  change _ ↔ (skipBlanks s).1 = _
  obtain ⟨_ | ⟨c, r⟩, h⟩ := skipBlanks s
  · simp
  · by_cases hc : c = some ']'
    · simp [hc, eq_comm]
    · simp only [hc, if_false, List.cons.injEq, false_and, iff_false]
      rintro ⟨u, hu, -⟩
      split at hu
      · split at hu
        · split at hu <;> cases hu
        · cases hu
      · cases hu

theorem reads_fieldElements_nil {done : Nat} {s t : Input} {as : List α} :
    Reads (fieldElements type p done []) s as t ↔ as = [] ∧ s.dropWhile isBlank = some ']' :: t := by
  rw [← listEnd_ok_iff, Reads, fieldElements]
  cases listEnd s with
  | error e => simp [outcome]
  | ok r => simp [outcome, eq_comm]

theorem reads_fieldElements_cons {done : Nat} {name : String} {names : List String} {s t : Input}
    {as : List α} :
    Reads (fieldElements type p done (name :: names)) s as t ↔
      ∃ a rest b r, as = a :: rest ∧ Begins nextElement (done == 0) s b ∧ Reads p b a r ∧
        Reads (fieldElements type p (done + 1) names) r rest t := by
  unfold Begins
  rw [Reads, fieldElements]
  cases nextElement (done == 0) s with
  | error e =>
    constructor
    · intro h
      cases h
    · rintro ⟨a, rest, b, r, -, hbegins, -⟩
      cases hbegins
  | ok found =>
    cases found with
    | closed r =>
      constructor
      · intro h
        cases h
      · rintro ⟨a, rest, b, r, -, hbegins, -⟩
        cases hbegins
    | begins b =>
      dsimp only [nextOutcome]
      constructor
      · intro h
        cases hp : p b.1 with
        | error e => rw [hp] at h; cases h
        | ok result =>
          obtain ⟨a, r⟩ := result
          rw [hp] at h
          dsimp only at h
          cases hrest : fieldElements type p (done + 1) names r.1 with
          | error e => rw [hrest] at h; cases h
          | ok others =>
            rw [hrest] at h
            cases h
            exact ⟨a, others.1, b.1, r.1, rfl, rfl, reads_of_ok hp, reads_of_ok hrest⟩
      · rintro ⟨a, rest, b', r, rfl, hbegins, ha, hrest⟩
        cases hbegins
        obtain ⟨r, hp, rfl⟩ := ha.exists_ok
        obtain ⟨r', hothers, rfl⟩ := hrest.exists_ok
        rw [hp]
        dsimp only
        rw [hothers]
        rfl

/-- **The fields of a record are the elements of a list that has as many.** -/
theorem reads_fieldElements_iff_of_laid {names : List String} :
    ∀ {vs : List Value} {done : Nat} {s t : Input},
      (∀ v ∈ vs, Follows p v.chars (f v)) → Laid nextElement (done == 0) s (vs.map Value.chars) t →
      ∀ as u, Reads (fieldElements type p done names) s as u ↔
        (vs.length = names.length ∧ vs.mapM f = some as) ∧ u = t := by
  induction names with
  | nil =>
    intro vs done s t h hlaid as u
    have hcloses : Closes nextElement (done == 0) s u ↔ s.dropWhile isBlank = some ']' :: u :=
      closes_nextElement
    rw [reads_fieldElements_nil, ← hcloses, mapM_eq_some_iff]
    cases vs with
    | nil =>
      cases hlaid with
      | closed hcloses =>
        constructor
        · rintro ⟨rfl, hcloses'⟩
          exact ⟨⟨rfl, rfl⟩, hcloses'.unique hcloses⟩
        · rintro ⟨⟨-, has⟩, rfl⟩
          exact ⟨List.map_eq_nil_iff.mp has.symm, hcloses⟩
    | cons v vs =>
      cases hlaid with
      | item hbegins =>
        constructor
        · rintro ⟨-, hcloses⟩
          exact absurd hbegins hcloses.not_begins
        · rintro ⟨⟨hlength, -⟩, -⟩
          cases hlength
  | cons name names ih =>
    intro vs done s t h hlaid as u
    rw [reads_fieldElements_cons, mapM_eq_some_iff]
    cases vs with
    | nil =>
      cases hlaid with
      | closed hcloses =>
        constructor
        · rintro ⟨a, rest, b, r, -, hbegins, -⟩
          exact absurd hbegins hcloses.not_begins
        · rintro ⟨⟨hlength, -⟩, -⟩
          cases hlength
    | cons v vs =>
      cases hlaid with
      | item hbegins hstops hlaid =>
        have hrest := @ih vs (done + 1) _ _ (fun w hw => h w (List.mem_cons_of_mem _ hw)) hlaid
        have hitem := h v List.mem_cons_self _ hstops
        constructor
        · rintro ⟨a, rest, b, r, rfl, hbegins', ha, hread⟩
          cases hbegins'.unique hbegins
          obtain ⟨hv, rfl⟩ := (hitem a r).mp ha
          obtain ⟨⟨hlength, hvs⟩, rfl⟩ := (hrest rest u).mp hread
          rw [List.map_cons, List.map_cons, hv, mapM_eq_some_iff.mp hvs]
          exact ⟨⟨congrArg Nat.succ hlength, rfl⟩, rfl⟩
        · rintro ⟨⟨hlength, has⟩, rfl⟩
          cases as with
          | nil => cases has
          | cons a rest =>
            obtain ⟨hv, hvs⟩ := List.cons.inj has
            exact ⟨a, rest, _, _, rfl, hbegins, (hitem a _).mpr ⟨hv, rfl⟩,
              (hrest rest u).mpr ⟨⟨Nat.succ.inj hlength, mapM_eq_some_iff.mpr hvs⟩, rfl⟩⟩

end

/-! ## The members of a record -/

theorem exists_mapM {g : α → Option β} {as : List α} (h : ∀ a ∈ as, ∃ b, g a = some b) :
    ∃ bs, as.mapM g = some bs := by
  induction as with
  | nil => exact ⟨[], rfl⟩
  | cons a as ih =>
    obtain ⟨b, hb⟩ := h a List.mem_cons_self
    obtain ⟨bs, hbs⟩ := ih fun a ha => h a (List.mem_cons_of_mem _ ha)
    refine ⟨b :: bs, mapM_eq_some_iff.mpr ?_⟩
    rw [List.map_cons, List.map_cons, hb, mapM_eq_some_iff.mp hbs]

theorem exists_of_mapM {g : α → Option β} {as : List α} {bs : List β} (h : as.mapM g = some bs)
    {a : α} (ha : a ∈ as) : ∃ b, g a = some b := by
  have hmem : g a ∈ as.map g := List.mem_map_of_mem ha
  rw [mapM_eq_some_iff.mp h] at hmem
  obtain ⟨b, -, hb⟩ := List.mem_map.mp hmem
  exact ⟨b, hb.symm⟩

/-- What is kept of a member: its value if it is one of the fields, and else nothing. -/
def fieldValue? (f : Value → Option α) (fields : List String) (m : String × Value) :
    Option (String × Option α) :=
  (if m.1 ∈ fields then (f m.2).map some else some none).map (m.1, ·)

section

variable {type : RecordType} {p : Reader α} {f : Value → Option α} {d : Nat} {v : Value}

/-- **A member is followed as a field, or passed.** -/
theorem follows_fieldMember {m : String × Value} (h : Follows p m.2.chars (f m.2))
    (hfits : m.2.Fits d) :
    Follows (fieldMember type p) (memberText m.1 m.2.chars) (fieldValue? f type.fields m) := by
  refine follows_member (reads_stringText m.1) ?_
  split
  · exact follows_mapValue h some
  · exact follows_mapValue (follows_of_reads fun t ht => reads_skipValue hfits ht) fun _ => none

theorem listedValues_cons_of_ne {name : String} {n : String × Option α} (h : n.1 ≠ name)
    (listed : List (String × Option α)) :
    listedValues name (n :: listed) = listedValues name listed :=
  List.filterMap_cons_none (if_neg h)

theorem listedValues_cons_self (name : String) (a : α) (listed : List (String × Option α)) :
    listedValues name ((name, some a) :: listed) = a :: listedValues name listed :=
  List.filterMap_cons_some (if_pos rfl)

/-- A field has the value of its member, and is listed once. -/
theorem listedValues_of_mapM {fields : List String} {name : String} (hname : name ∈ fields)
    {members : List (String × Value)} :
    ∀ {listed : List (String × Option α)}, KeysOrdered members →
      members.mapM (fieldValue? f fields) = some listed →
      listedValues name listed = ((members.lookup name).bind f).toList := by
  induction members with
  | nil =>
    intro listed _ hlisted
    cases hlisted
    rfl
  | cons m members ih =>
    obtain ⟨key, v⟩ := m
    intro listed hordered hlisted
    obtain ⟨hleast, hrest⟩ := List.pairwise_cons.mp hordered
    rw [mapM_eq_some_iff] at hlisted
    cases listed with
    | nil => cases hlisted
    | cons n listed =>
      obtain ⟨hn, hlisted⟩ := List.cons.inj hlisted
      have hothers := ih hrest (mapM_eq_some_iff.mpr hlisted)
      obtain ⟨o, ho, rfl⟩ := Option.map_eq_some_iff.mp hn
      by_cases hkey : key = name
      · subst hkey
        rw [if_pos hname] at ho
        obtain ⟨a, ha, rfl⟩ := Option.map_eq_some_iff.mp ho
        -- no further member has the key
        rw [lookup_eq_none_of_forall_lt hleast] at hothers
        rw [listedValues_cons_self, hothers, lookup_cons_self, Option.bind_some, ha]
        rfl
      · rw [listedValues_cons_of_ne hkey, lookup_cons_of_ne hkey]
        exact hothers

/-- The fields are there if each of them is listed once. -/
theorem fieldsOf_eq_ok_iff {value : String → Option α} {listed : List (String × Option α)}
    {names : List String} :
    ∀ {as : List α}, (∀ name ∈ names, listedValues name listed = (value name).toList) →
      (fieldsOf listed names = .ok as ↔ names.mapM value = some as) := by
  induction names with
  | nil =>
    intro as _
    rw [fieldsOf, mapM_eq_some_iff]
    cases as <;> simp
  | cons name names ih =>
    intro as h
    have hname := h name List.mem_cons_self
    have hrest : ∀ {as}, fieldsOf listed names = .ok as ↔ names.mapM value = some as :=
      ih fun other hother => h other (List.mem_cons_of_mem _ hother)
    rw [fieldsOf, hname, mapM_eq_some_iff, List.map_cons]
    cases value name with
    | none => cases as <;> simp
    | some a =>
      dsimp only [Option.toList]
      rw [map_eq_ok_iff]
      constructor
      · rintro ⟨rest, hok, rfl⟩
        rw [List.map_cons, mapM_eq_some_iff.mp (hrest.mp hok)]
      · intro has
        cases as with
        | nil => cases has
        | cons b rest =>
          obtain ⟨hb, hnames⟩ := List.cons.inj has
          exact ⟨rest, hrest.mpr (mapM_eq_some_iff.mpr hnames), by rw [Option.some.inj hb]⟩

theorem reads_fieldMembers {s t : Input} {as : List α} :
    Reads (fieldMembers type p) s as t ↔
      ∃ listed, Reads (items nextKey (fieldMember type p) true) s listed t ∧
        fieldsOf listed type.fields = .ok as := by
  constructor
  · intro h
    unfold Reads fieldMembers at h
    cases hitems : items nextKey (fieldMember type p) true s with
    | error e => rw [hitems] at h; cases h
    | ok result =>
      obtain ⟨listed, r⟩ := result
      rw [hitems] at h
      dsimp only at h
      cases hfields : fieldsOf listed type.fields with
      | error e => rw [hfields] at h; cases h
      | ok found =>
        rw [hfields] at h
        cases h
        exact ⟨listed, reads_of_ok hitems, hfields⟩
  · rintro ⟨listed, hitems, hfields⟩
    obtain ⟨r, hr, rfl⟩ := hitems.exists_ok
    unfold Reads fieldMembers
    rw [hr]
    dsimp only
    rw [hfields]
    rfl

/-- **The fields of a record are the members of an object with their names.** -/
theorem reads_fieldMembers_iff_of_laid {members : List (String × Value)} {s t : Input}
    (h : ∀ m ∈ members, Follows p m.2.chars (f m.2)) (hfits : ∀ m ∈ members, m.2.Fits d)
    (hordered : KeysOrdered members)
    (hlaid : Laid nextKey true s (members.map fun m => memberText m.1 m.2.chars) t)
    (as : List α) (u : Input) :
    Reads (fieldMembers type p) s as u ↔
      (type.fields.mapM fun name => (members.lookup name).bind f) = some as ∧ u = t := by
  have hmember : ∀ m ∈ members, Follows (fieldMember type p) (memberText m.1 m.2.chars)
      (fieldValue? f type.fields m) :=
    fun m hm => follows_fieldMember (h m hm) (hfits m hm)
  have hitems := reads_items_iff_of_laid hmember hlaid
  have hfields : ∀ {listed}, members.mapM (fieldValue? f type.fields) = some listed →
      (fieldsOf listed type.fields = .ok as ↔
        (type.fields.mapM fun name => (members.lookup name).bind f) = some as) :=
    fun hlisted => fieldsOf_eq_ok_iff fun name hname => listedValues_of_mapM hname hordered hlisted
  rw [reads_fieldMembers]
  constructor
  · rintro ⟨listed, hread, hok⟩
    obtain ⟨hlisted, rfl⟩ := (hitems listed u).mp hread
    exact ⟨(hfields hlisted).mp hok, rfl⟩
  · rintro ⟨has, rfl⟩
    -- where all fields have values, no member is refused
    obtain ⟨listed, hlisted⟩ : ∃ listed, members.mapM (fieldValue? f type.fields) = some listed := by
      refine exists_mapM fun m hm => ?_
      unfold fieldValue?
      split
      · next hname =>
        obtain ⟨a, ha⟩ := exists_of_mapM has hname
        rw [lookup_of_mem hordered hm, Option.bind_some] at ha
        rw [ha]
        exact ⟨_, rfl⟩
      · exact ⟨_, rfl⟩
    exact ⟨listed, (hitems listed u).mpr ⟨hlisted, rfl⟩, (hfields hlisted).mpr has⟩

end

/-! ## Records -/

section

variable {type : RecordType} {p : Reader α} {f : Value → Option α} {d : Nat} {v : Value}

theorem reads_recordReader {s t : Input} {as : List α} :
    Reads (recordReader type p) s as t ↔
      (∃ r, s.dropWhile isBlank = some '[' :: r ∧
        Reads (fieldElements type p 0 type.fields) r as t) ∨
      ∃ r, s.dropWhile isBlank = some '\x7b' :: r ∧ Reads (fieldMembers type p) r as t := by
  unfold recordReader
  rw [reads_padded]
  generalize s.dropWhile isBlank = s
  cases s with
  | nil => simp [Reads, outcome]
  | cons c r =>
    by_cases hbracket : c = some '['
    · subst hbracket
      unfold Reads
      dsimp only
      rw [if_pos rfl, outcome_afterFirst]
      simp
    · by_cases hbrace : c = some '\x7b'
      · subst hbrace
        unfold Reads
        dsimp only
        rw [if_neg (by decide), if_pos rfl, outcome_afterFirst]
        simp
      · simp [Reads, outcome, hbracket, hbrace]

theorem reads_recordReader_array {s t : Input} {as : List α} :
    Reads (recordReader type p) (some '[' :: s) as t ↔
      Reads (fieldElements type p 0 type.fields) s as t := by
  have hdrop : (some '[' :: s : Input).dropWhile isBlank = some '[' :: s := rfl
  rw [reads_recordReader, hdrop]
  simp

theorem reads_recordReader_object {s t : Input} {as : List α} :
    Reads (recordReader type p) (some '\x7b' :: s) as t ↔ Reads (fieldMembers type p) s as t := by
  have hdrop : (some '\x7b' :: s : Input).dropWhile isBlank = some '\x7b' :: s := rfl
  rw [reads_recordReader, hdrop]
  simp

/-- **A reader of records follows the fields.** -/
theorem follows_recordReader (h : ∀ {d v}, v.Fits d → Follows p v.chars (f v)) (hv : v.Fits d) :
    Follows (recordReader type p) v.chars (v.fieldsOf? f type.fields) := by
  have hother : ¬ v.Opening '[' → ¬ v.Opening '\x7b' → Follows (recordReader type p) v.chars none := by
    refine fun harray hobject => follows_none fun t _ a u hread => ?_
    rcases reads_recordReader.mp hread with ⟨r, hr, -⟩ | ⟨r, hr, -⟩
    · rw [dropWhile_chars] at hr
      exact harray (opening_of_ofChars hr)
    · rw [dropWhile_chars] at hr
      exact hobject (opening_of_ofChars hr)
  cases hv with
  | @array d vs hvs =>
    intro t _ as u
    have hlaid : Laid nextElement (0 == 0) _ _ t := laid_elements vs t
    rw [ofChars_array, reads_recordReader_array,
      reads_fieldElements_iff_of_laid (fun v hv => h (hvs v hv)) hlaid, Value.fieldsOf?]
    split <;> simp [*]
  | @object d members hordered hmembers =>
    intro t _ as u
    rw [ofChars_object, reads_recordReader_object, Value.fieldsOf?]
    exact reads_fieldMembers_iff_of_laid (fun m hm => h (hmembers m hm)) hmembers hordered
      (laid_members members t) as u
  | null | bool b | string s =>
    refine hother (fun harray => ?_) fun hobject => ?_
    · cases harray
    · cases hobject
  | integer => exact hother (not_opening_number _ (by decide)) (not_opening_number _ (by decide))
  | float x => exact hother (not_opening_number _ (by decide)) (not_opening_number _ (by decide))

theorem reads_fieldReader {s t : Input} {a : α} :
    Reads (fieldReader type p) s a t ↔ Reads (recordReader type p) s [a] t := by
  unfold Reads fieldReader
  cases recordReader type p s with
  | error e => simp [outcome]
  | ok result =>
    obtain ⟨_ | ⟨b, _ | ⟨c, rest⟩⟩, r⟩ := result
    · simp [outcome]
    · simp [outcome]
    · simp [outcome]

/-- **A reader of one field follows the record that has no other.** -/
theorem follows_fieldReader {text : List Char} {result : Option (List α)} {one : Option α}
    (h : Follows (recordReader type p) text result) (hone : ∀ a, one = some a ↔ result = some [a]) :
    Follows (fieldReader type p) text one := by
  intro t ht a u
  rw [reads_fieldReader, h t ht, hone]

end

end SecretClient.Json
