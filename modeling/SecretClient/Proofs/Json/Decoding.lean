import SecretClient.Proofs.Json.Record
import SecretClient.Proofs.Json.Tree

/-!
# Reading as decoding

Whatever a reader reads, it reads what is decoded from the tree of the same text, and leaves the same
(`Decodes`). So readers that take different notice of one text, one keeping all of it and another
passing most of it, are compared by their decoders, which see no text.

* `decodes_skipValue` : a value is passed wherever there is a tree, and to its end
* `decodes_valueReader` : a value is decoded to the depth to which it may nest
* `decodes_recordReader`, `decodes_fieldReader` : records and records of one field
-/

namespace SecretClient.Json

open Utf8 (mapM_eq_some_iff)

variable {α β κ κ' : Type}

/-- What `p` reads is what is decoded from what `q` reads, and both leave the same. -/
def Decodes (p : Reader α) (q : Reader β) (f : β → Option α) : Prop :=
  ∀ s a t, Reads p s a t ↔ ∃ b, Reads q s b t ∧ f b = some a

/-- The element of a list that has no other. -/
def only? : List α → Option α
  | [a] => some a
  | _ => none

theorem only?_eq_some_iff {as : List α} {a : α} : only? as = some a ↔ as = [a] := by
  rcases as with _ | ⟨b, _ | ⟨c, rest⟩⟩ <;> simp [only?]

/-! ## Decoders of trees -/

namespace Tree

/-- The value of a tree whose containers nest at most so deep. Its numbers are converted, and of
members with one key the last counts. -/
def value? : Nat → Tree → Option Value
  | _, .null => some .null
  | _, .bool b => some (.bool b)
  | _, .number l => l.toNumber.toOption.map .number
  | _, .string s => s.map .string
  | 0, .array _ => none
  | 0, .object _ => none
  | d + 1, .array os => (os.mapM (value? d)).map .array
  | d + 1, .object ms =>
    (ms.mapM fun (m : Option String × Tree) => m.1.bind fun key => (value? d m.2).map (key, ·)).map
      fun listed => .object (collectMembers listed)

/-- The text that a tree is. -/
def text? : Tree → Option String
  | .string s => s
  | _ => none

/-- What is kept of a member of a record: its value if it is one of the fields, and else nothing. Its
key has to be a text in any case. -/
def kept? (f : Tree → Option α) (fields : List String) (m : Option String × Tree) :
    Option (String × Option α) :=
  m.1.bind fun key =>
    (if key ∈ fields then (f m.2).map some else some none).map (key, ·)

/-- The fields of a record: all elements of a list in their order, or members of an object, each field
listed once. -/
def fields? (f : Tree → Option α) (fields : List String) : Tree → Option (List α)
  | .array os => if os.length = fields.length then os.mapM f else none
  | .object ms => (ms.mapM (kept? f fields)).bind fun listed => (fieldsOf listed fields).toOption
  | _ => none

/-- The field of a record that has no other. -/
def field? (f : Tree → Option α) (name : String) (o : Tree) : Option α :=
  (fields? f [name] o).bind only?

end Tree

/-! ## Composing decoders -/

theorem mapM_cons_eq_some_iff {f : β → Option α} {b : β} {bs : List β} {as : List α} :
    (b :: bs).mapM f = some as ↔
      ∃ a rest, as = a :: rest ∧ f b = some a ∧ bs.mapM f = some rest := by
  rw [mapM_eq_some_iff]
  cases as with
  | nil => simp
  | cons a as => simp [mapM_eq_some_iff]

theorem mapM_singleton_eq_some_iff {f : β → Option α} {b : β} {as : List α} :
    [b].mapM f = some as ↔ ∃ a, as = [a] ∧ f b = some a := by
  rw [mapM_eq_some_iff, List.map_singleton, eq_comm, List.map_eq_singleton_iff]
  simp [eq_comm]

theorem Decodes.mapValue {γ : Type} {p : Reader α} {q : Reader β} {f : β → Option α}
    (h : Decodes p q f) (g : α → γ) :
    Decodes (fun s => mapValue g (p s)) q fun b => (f b).map g := by
  intro s c t
  simp only [reads_mapValue, Option.map_eq_some_iff]
  constructor
  · rintro ⟨a, ha, rfl⟩
    obtain ⟨b, hb, hf⟩ := (h s a t).mp ha
    exact ⟨b, hb, a, hf, rfl⟩
  · rintro ⟨b, hb, a, hf, rfl⟩
    exact ⟨a, (h s a t).mpr ⟨b, hb, hf⟩, rfl⟩

/-- The items of a container are decoded one by one. -/
theorem Decodes.items {p : Reader α} {q : Reader β} {f : β → Option α} (h : Decodes p q f)
    (next : Bool → (s : Input) → Except Fault (Next s)) (first : Bool) :
    Decodes (items next p first) (items next q first) (·.mapM f) := by
  intro s as t
  constructor
  · intro hread
    induction as generalizing first s with
    | nil =>
      rcases reads_items.mp hread with ⟨-, hcloses⟩ | ⟨a, rest, r, r', heq, -⟩
      · exact ⟨[], reads_items.mpr (Or.inl ⟨rfl, hcloses⟩), rfl⟩
      · cases heq
    | cons a as ih =>
      rcases reads_items.mp hread with ⟨heq, -⟩ | ⟨a, rest, r, r', heq, hbegins, ha, hrest⟩
      · cases heq
      · cases heq
        obtain ⟨b, hb, hf⟩ := (h r a r').mp ha
        obtain ⟨bs, hbs, hfs⟩ := ih false r' hrest
        exact ⟨b :: bs, reads_items.mpr (Or.inr ⟨b, bs, r, r', rfl, hbegins, hb, hbs⟩),
          mapM_cons_eq_some_iff.mpr ⟨a, as, rfl, hf, hfs⟩⟩
  · rintro ⟨bs, hread, hmap⟩
    induction bs generalizing first s as with
    | nil =>
      cases hmap
      rcases reads_items.mp hread with ⟨-, hcloses⟩ | ⟨b, rest, r, r', heq, -⟩
      · exact reads_items.mpr (Or.inl ⟨rfl, hcloses⟩)
      · cases heq
    | cons b bs ih =>
      obtain ⟨a, rest, rfl, hf, hfs⟩ := mapM_cons_eq_some_iff.mp hmap
      rcases reads_items.mp hread with ⟨heq, -⟩ | ⟨b, bs, r, r', heq, hbegins, hb, hrest⟩
      · cases heq
      · cases heq
        exact reads_items.mpr (Or.inr ⟨a, rest, r, r', rfl, hbegins,
          (h r a r').mpr ⟨_, hb, hf⟩, ih false r' rest hrest hfs⟩)

/-- A member is decoded by its key and its value. -/
theorem Decodes.member {key : Reader κ} {key' : Reader κ'} {g : κ' → Option κ} {value : κ → Reader α}
    {q : Reader β} {f : κ → β → Option α} (hkey : Decodes key key' g)
    (hvalue : ∀ k, Decodes (value k) q (f k)) :
    Decodes (member key value) (member key' fun _ => q) fun m =>
      (g m.1).bind fun k => (f k m.2).map (k, ·) := by
  intro s m t
  obtain ⟨k, a⟩ := m
  simp only [reads_member, Option.bind_eq_some_iff, Option.map_eq_some_iff]
  constructor
  · rintro ⟨r, u, hk, hcolon, ha⟩
    obtain ⟨k', hk', hg⟩ := (hkey s k r).mp hk
    obtain ⟨b, hb, hf⟩ := (hvalue k u a t).mp ha
    exact ⟨(k', b), ⟨r, u, hk', hcolon, hb⟩, k, hg, a, hf, rfl⟩
  · rintro ⟨⟨k', b⟩, ⟨r, u, hk', hcolon, hb⟩, _, hg, _, hf, heq⟩
    cases heq
    exact ⟨r, u, (hkey s k r).mpr ⟨k', hk', hg⟩, hcolon, (hvalue k u a t).mpr ⟨b, hb, hf⟩⟩

/-- A value is decoded from a tree if its parts are decoded from those of the tree. -/
theorem decodes_parts {parts : Parts α} {elements : Reader (List Tree)}
    {members : Reader (List (Option String × Tree))} {f : Tree → Option α}
    (hnull : f .null = some parts.null) (hbool : ∀ b, f (.bool b) = some (parts.bool b))
    (hnumber : Decodes parts.number literal fun l => f (.number l))
    (hstring : Decodes parts.string stringTree fun s => f (.string s))
    (harray : Decodes parts.array elements fun os => f (.array os))
    (hobject : Decodes parts.object members fun ms => f (.object ms)) :
    Decodes parts.reader (treeParts elements members).reader f := by
  intro s a t
  simp only [reads_parts]
  generalize s.dropWhile isBlank = s
  constructor
  · intro h
    cases h with
    | null => exact ⟨.null, .null, hnull⟩
    | true => exact ⟨.bool true, .true, hbool true⟩
    | false => exact ⟨.bool false, .false, hbool false⟩
    | string h =>
      obtain ⟨o, ho, hf⟩ := (hstring _ _ _).mp h
      exact ⟨.string o, .string (reads_mapValue.mpr ⟨o, ho, rfl⟩), hf⟩
    | array h =>
      obtain ⟨os, hos, hf⟩ := (harray _ _ _).mp h
      exact ⟨.array os, .array (reads_mapValue.mpr ⟨os, hos, rfl⟩), hf⟩
    | object h =>
      obtain ⟨ms, hms, hf⟩ := (hobject _ _ _).mp h
      exact ⟨.object ms, .object (reads_mapValue.mpr ⟨ms, hms, rfl⟩), hf⟩
    | number hc h =>
      obtain ⟨l, hl, hf⟩ := (hnumber _ _ _).mp h
      exact ⟨.number l, .number hc (reads_mapValue.mpr ⟨l, hl, rfl⟩), hf⟩
  · rintro ⟨o, h, hf⟩
    cases h with
    | null =>
      cases Option.some.inj (hnull.symm.trans hf)
      exact .null
    | true =>
      cases Option.some.inj ((hbool true).symm.trans hf)
      exact .true
    | false =>
      cases Option.some.inj ((hbool false).symm.trans hf)
      exact .false
    | string h =>
      obtain ⟨o, ho, rfl⟩ := reads_mapValue.mp h
      exact .string ((hstring _ _ _).mpr ⟨o, ho, hf⟩)
    | array h =>
      obtain ⟨os, hos, rfl⟩ := reads_mapValue.mp h
      exact .array ((harray _ _ _).mpr ⟨os, hos, hf⟩)
    | object h =>
      obtain ⟨ms, hms, rfl⟩ := reads_mapValue.mp h
      exact .object ((hobject _ _ _).mpr ⟨ms, hms, hf⟩)
    | number hc h =>
      obtain ⟨l, hl, rfl⟩ := reads_mapValue.mp h
      exact .number hc ((hnumber _ _ _).mpr ⟨l, hl, hf⟩)

/-- Nothing is decoded where nothing is read. -/
theorem decodes_none {p : Reader α} (q : Reader β) (h : ∀ s a t, ¬ Reads p s a t) :
    Decodes p q fun _ => none := by
  intro s a t
  constructor
  · intro hread
    exact absurd hread (h s a t)
  · rintro ⟨b, -, hnone⟩
    cases hnone

/-! ## Tokens -/

theorem decodes_stringTail : Decodes stringTail stringTree id := by
  intro s a t
  rw [← reads_stringTree_some_iff]
  constructor
  · intro h
    exact ⟨some a, h, rfl⟩
  · rintro ⟨o, h, rfl⟩
    exact h

theorem decodes_skippedTail : Decodes skippedTail stringTree fun _ => some () := by
  intro s a t
  rw [reads_skippedTail_iff]
  simp

theorem Decodes.afterFirst {p : Reader α} {q : Reader β} {f : β → Option α} (h : Decodes p q f) :
    Decodes (afterFirst p) (afterFirst q) f := by
  intro s a t
  cases s with
  | nil => simp [not_reads_nil]
  | cons c s =>
    simp only [reads_afterFirst]
    exact h s a t

/-- A key is read where the tree has a text for it. -/
theorem decodes_string : Decodes string (afterFirst stringTree) id := by
  intro s a t
  cases s with
  | nil => simp [not_reads_nil]
  | cons c s =>
    simp only [reads_string, reads_afterFirst]
    exact decodes_stringTail s a t

/-! ## Values -/

/-- Nothing too deep is read, and nothing decoded. -/
theorem decodes_tooDeep (bracket : Char) (q : Reader β) :
    Decodes (tooDeep bracket : Reader α) q fun _ => none :=
  decodes_none q fun _ _ _ => not_reads_tooDeep

/-- What is decoded to one and the same value is decoded throughout. -/
theorem mapM_const (a : α) (bs : List β) :
    (bs.mapM fun _ => some a) = some (bs.map fun _ => a) :=
  mapM_eq_some_iff.mpr (by rw [List.map_map]; rfl)

theorem decodes_skipReader (d : Nat) : Decodes (skipReader d) (treeReader d) fun _ => some () := by
  have hnumber : Decodes (fun s => mapValue (fun _ => ()) (literal s)) literal fun _ => some () := by
    intro s a t
    simp [reads_mapValue]
  have hdeep : ∀ {γ : Type} (bracket : Char),
      Decodes (tooDeep bracket) (tooDeep bracket : Reader γ) fun _ => some () := by
    intro γ bracket s a t
    constructor
    · intro h
      exact absurd h not_reads_tooDeep
    · rintro ⟨b, h, -⟩
      exact absurd h not_reads_tooDeep
  induction d with
  | zero =>
    exact decodes_parts rfl (fun _ => rfl) hnumber decodes_skippedTail (hdeep '[') (hdeep '\x7b')
  | succ d ih =>
    have helements := (ih.items nextElement true).mapValue fun _ => ()
    have hmembers := ((decodes_skippedTail.afterFirst.member fun _ => ih).items nextKey true).mapValue
      fun _ => ()
    simp only [mapM_const, Option.bind_some, Option.map_some] at helements hmembers
    exact decodes_parts rfl (fun _ => rfl) hnumber decodes_skippedTail helements hmembers

/-- **A value is passed wherever there is a tree, and to its end.** -/
theorem decodes_skipValue : Decodes skipValue tree fun _ => some () :=
  fun s => decodes_skipReader s.length s

theorem toOption_eq_some_iff {ε : Type} {x : Except ε α} {a : α} :
    x.toOption = some a ↔ x = .ok a := by
  cases x with
  | ok b => exact ⟨fun h => congrArg _ (Option.some.inj h), fun h => congrArg _ (Except.ok.inj h)⟩
  | error e => exact ⟨fun h => absurd h.symm (Option.some_ne_none a), fun h => by cases h⟩

theorem decodes_number : Decodes number literal fun l => l.toNumber.toOption := by
  intro s n t
  simp only [reads_number, toOption_eq_some_iff]

theorem decodes_tree {p : Reader α} {f : Tree → Option α}
    (h : Decodes p (treeParts (elementTrees tree) (memberTrees tree)).reader f) : Decodes p tree f := by
  intro s a t
  simp only [reads_tree]
  exact h s a t

/-- **A value is decoded to the depth to which its containers may nest.** -/
theorem decodes_valueReader (d : Nat) : Decodes (valueReader d) tree (Tree.value? d) := by
  refine decodes_tree ?_
  have hnumber := decodes_number.mapValue Value.number
  have hstring := decodes_stringTail.mapValue Value.string
  cases d with
  | zero =>
    exact decodes_parts rfl (fun _ => rfl) hnumber hstring (decodes_tooDeep _ _) (decodes_tooDeep _ _)
  | succ d =>
    have ih := decodes_valueReader d
    have helements := (ih.items nextElement true).mapValue Value.array
    have hmembers := ((decodes_string.member fun _ => ih).items nextKey true).mapValue fun listed =>
      Value.object (collectMembers listed)
    exact decodes_parts rfl (fun _ => rfl) hnumber hstring helements hmembers

/-! ## Values of a known shape -/

/-- **A text is decoded from a tree that is one.** -/
theorem decodes_textReader : Decodes textReader tree Tree.text? := by
  intro s a t
  unfold textReader
  simp only [reads_beginning, reads_tree, reads_parts]
  constructor
  · rintro ⟨r, hr, h⟩
    obtain ⟨o, ho, rfl⟩ := (decodes_stringTail r a t).mp h
    exact ⟨.string (some a), hr ▸ .string (reads_mapValue.mpr ⟨_, ho, rfl⟩), rfl⟩
  · rintro ⟨o, h, ha⟩
    generalize s.dropWhile isBlank = s at h
    cases h with
    | string h =>
      obtain ⟨o, ho, rfl⟩ := reads_mapValue.mp h
      exact ⟨_, rfl, (decodes_stringTail _ a t).mpr ⟨o, ho, ha⟩⟩
    | null | true | false => cases ha
    | number hc h =>
      obtain ⟨l, -, rfl⟩ := reads_mapValue.mp h
      cases ha
    | array h =>
      obtain ⟨os, -, rfl⟩ := reads_mapValue.mp h
      cases ha
    | object h =>
      obtain ⟨ms, -, rfl⟩ := reads_mapValue.mp h
      cases ha

section

variable {type : RecordType} {p : Reader α} {f : Tree → Option α}

/-- The fields that are still wanted are all elements that are left of a list. -/
theorem decodes_fieldElements (h : Decodes p tree f) (names : List String) :
    ∀ done, Decodes (fieldElements type p done names) (items nextElement tree (done == 0)) fun os =>
      if os.length = names.length then os.mapM f else none := by
  induction names with
  | nil =>
    intro done s as t
    have hcloses : Closes nextElement (done == 0) s t ↔ s.dropWhile isBlank = some ']' :: t :=
      closes_nextElement
    rw [reads_fieldElements_nil, ← hcloses]
    constructor
    · rintro ⟨rfl, hcloses⟩
      exact ⟨[], reads_items.mpr (Or.inl ⟨rfl, hcloses⟩), rfl⟩
    · rintro ⟨os, hread, has⟩
      obtain ⟨hlength, has⟩ := Option.ite_none_right_eq_some.mp has
      cases List.length_eq_zero_iff.mp hlength
      cases has
      rcases reads_items.mp hread with ⟨-, hcloses⟩ | ⟨a, rest, b, r, heq, -⟩
      · exact ⟨rfl, hcloses⟩
      · cases heq
  | cons name names ih =>
    intro done s as t
    rw [reads_fieldElements_cons]
    constructor
    · rintro ⟨a, rest, b, r, rfl, hbegins, ha, hrest⟩
      obtain ⟨o, ho, hf⟩ := (h b a r).mp ha
      obtain ⟨os, hos, hfs⟩ := (ih (done + 1) r rest t).mp hrest
      obtain ⟨hlength, hfs⟩ := Option.ite_none_right_eq_some.mp hfs
      refine ⟨o :: os, reads_items.mpr (Or.inr ⟨o, os, b, r, rfl, hbegins, ho, hos⟩), ?_⟩
      exact Option.ite_none_right_eq_some.mpr
        ⟨congrArg Nat.succ hlength, mapM_cons_eq_some_iff.mpr ⟨a, rest, rfl, hf, hfs⟩⟩
    · rintro ⟨os, hread, has⟩
      obtain ⟨hlength, has⟩ := Option.ite_none_right_eq_some.mp has
      rcases reads_items.mp hread with ⟨rfl, -⟩ | ⟨o, os, b, r, rfl, hbegins, ho, hos⟩
      · cases hlength
      · obtain ⟨a, rest, rfl, hf, hfs⟩ := mapM_cons_eq_some_iff.mp has
        refine ⟨a, rest, b, r, rfl, hbegins, (h b a r).mpr ⟨o, ho, hf⟩, ?_⟩
        exact (ih (done + 1) r rest t).mpr
          ⟨os, hos, Option.ite_none_right_eq_some.mpr ⟨Nat.succ.inj hlength, hfs⟩⟩

/-- The members of an object are decoded as fields, or passed. -/
theorem decodes_fieldMembers (h : Decodes p tree f) :
    Decodes (fieldMembers type p) (memberTrees tree) fun ms =>
      (ms.mapM (Tree.kept? f type.fields)).bind fun listed =>
        (fieldsOf listed type.fields).toOption := by
  have hvalue : ∀ key : String, Decodes
      (if key ∈ type.fields then fun s => mapValue some (p s)
        else fun s => mapValue (fun _ => none) (skipValue s)) tree
      fun o => if key ∈ type.fields then (f o).map some else some none := by
    intro key
    split
    · exact h.mapValue some
    · exact decodes_skipValue.mapValue fun _ => none
  have hitems := (decodes_string.member hvalue).items nextKey true
  intro s as t
  rw [reads_fieldMembers]
  constructor
  · rintro ⟨listed, hread, hfields⟩
    obtain ⟨ms, hms, hlisted⟩ := (hitems s listed t).mp hread
    exact ⟨ms, hms, Option.bind_eq_some_iff.mpr ⟨listed, hlisted, toOption_eq_some_iff.mpr hfields⟩⟩
  · rintro ⟨ms, hms, has⟩
    obtain ⟨listed, hlisted, hfields⟩ := Option.bind_eq_some_iff.mp has
    exact ⟨listed, (hitems s listed t).mpr ⟨ms, hms, hlisted⟩, toOption_eq_some_iff.mp hfields⟩

/-- **A record is decoded from a list of its fields or from an object with them.** -/
theorem decodes_recordReader (h : Decodes p tree f) :
    Decodes (recordReader type p) tree (Tree.fields? f type.fields) := by
  have helements : Decodes (fieldElements type p 0 type.fields) (elementTrees tree) _ :=
    decodes_fieldElements h type.fields 0
  have hmembers : Decodes (fieldMembers type p) (memberTrees tree) _ := decodes_fieldMembers h
  intro s as t
  simp only [reads_recordReader, reads_tree, reads_parts]
  generalize s.dropWhile isBlank = s
  constructor
  · rintro (⟨r, rfl, hread⟩ | ⟨r, rfl, hread⟩)
    · obtain ⟨os, hos, has⟩ := (helements r as t).mp hread
      exact ⟨.array os, .array (reads_mapValue.mpr ⟨os, hos, rfl⟩), has⟩
    · obtain ⟨ms, hms, has⟩ := (hmembers r as t).mp hread
      exact ⟨.object ms, .object (reads_mapValue.mpr ⟨ms, hms, rfl⟩), has⟩
  · rintro ⟨o, hread, has⟩
    cases hread with
    | array hread =>
      obtain ⟨os, hos, rfl⟩ := reads_mapValue.mp hread
      exact Or.inl ⟨_, rfl, (helements _ as t).mpr ⟨os, hos, has⟩⟩
    | object hread =>
      obtain ⟨ms, hms, rfl⟩ := reads_mapValue.mp hread
      exact Or.inr ⟨_, rfl, (hmembers _ as t).mpr ⟨ms, hms, has⟩⟩
    | null | true | false => cases has
    | string hread =>
      obtain ⟨o, -, rfl⟩ := reads_mapValue.mp hread
      cases has
    | number hc hread =>
      obtain ⟨l, -, rfl⟩ := reads_mapValue.mp hread
      cases has

/-- **A record of one field is decoded as that field.** -/
theorem decodes_fieldReader (h : Decodes p tree f) (record name : String) :
    Decodes (fieldReader ⟨record, [name]⟩ p) tree (Tree.field? f name) := by
  intro s a t
  rw [reads_fieldReader, decodes_recordReader h s [a] t]
  simp [Tree.field?, Option.bind_eq_some_iff, only?_eq_some_iff]

end

/-- What is decoded from a text is decoded from the tree of all of it. -/
theorem Decodes.whole_eq_ok_iff {p : Reader α} {q : Reader β} {f : β → Option α}
    (h : Decodes p q f) {s : Input} {a : α} :
    whole p s = .ok a ↔ ∃ b, whole q s = .ok b ∧ f b = some a := by
  simp only [whole_ok_iff]
  constructor
  · rintro ⟨t, hread, hend⟩
    obtain ⟨b, hb, hf⟩ := (h s a t).mp hread
    exact ⟨b, ⟨t, hb, hend⟩, hf⟩
  · rintro ⟨b, ⟨t, hb, hend⟩, hf⟩
    exact ⟨t, (h s a t).mpr ⟨b, hb, hf⟩, hend⟩

end SecretClient.Json
