import SecretClient.Proofs.Json.Follows
import SecretClient.Proofs.Json.String

/-!
# Values, written and read back

The text of a value is read back as the value, whatever stands behind it as long as no number could go
on there. The inductions are on `Value.Fits`: each level of a container takes one of the depth that is
left. Where floating point numbers occur the text is passed as well, but what they are read as is
another matter, and one may be out of range (`Passes`).

* `reads_chars`, `passes_chars` : the text of a value, with something behind it
* `parse_text`, `parse_text_error` : the text of a value alone
-/

namespace SecretClient.Json

/-! ## How texts begin -/

/-- The text of a number begins with its sign or a digit. -/
theorem exists_numberText (n : Number) :
    ∃ c r, Number.text n = c :: r ∧ beginsNumber (some c) = true := by
  obtain ⟨l, hformed, hchars⟩ := exists_literal n
  exact hchars ▸ exists_chars hformed

theorem opens_chars (v : Value) : Opens v.chars := by
  cases v with
  | null => exact ⟨'n', _, rfl, rfl, by decide⟩
  | bool b =>
    cases b with
    | false => exact ⟨'f', _, rfl, rfl, by decide⟩
    | true => exact ⟨'t', _, rfl, rfl, by decide⟩
  | number n =>
    obtain ⟨c, r, htext, hbegins⟩ := exists_numberText n
    refine ⟨c, r, htext, isBlank_of_beginsNumber hbegins, fun hc => ?_⟩
    exact ne_of_beginsNumber hbegins (by decide) (congrArg some hc)
  | string s => exact ⟨'"', _, rfl, rfl, by decide⟩
  | array items => exact ⟨'[', _, rfl, rfl, by decide⟩
  | object members => exact ⟨'\x7b', _, rfl, rfl, by decide⟩

/-! ## Passing what may be out of range -/

section

variable {α : Type} {next : Bool → (s : Input) → Except Fault (Next s)} {p : Reader α}

/-- The reader comes to an end in front of `t`, unless it finds a number out of range. -/
def Passes (p : Reader α) (s t : Input) : Prop :=
  (∃ a, Reads p s a t) ∨ outcome (p s) = .error .numberOutOfRange

theorem Passes.of_outcome {q : Reader α} {s u t : Input} (h : outcome (p s) = outcome (q u))
    (hq : Passes q u t) : Passes p s t := by
  unfold Passes Reads at hq ⊢
  rw [h]
  exact hq

theorem passes_mapValue {β : Type} {f : α → β} {s t : Input} (h : Passes p s t) :
    Passes (fun s => mapValue f (p s)) s t := by
  rcases h with ⟨a, ha⟩ | h
  · exact Or.inl ⟨f a, reads_mapValue.mpr ⟨a, ha, rfl⟩⟩
  · refine Or.inr ?_
    rw [outcome_mapValue, h]
    rfl

theorem passes_member {κ : Type} {key : Reader κ} {value : κ → Reader α} {s r u t : Input} {k : κ}
    (hkey : Reads key s k r) (hcolon : r.dropWhile isBlank = some ':' :: u)
    (h : Passes (value k) u t) : Passes (member key value) s t := by
  rcases h with ⟨a, ha⟩ | h
  · exact Or.inl ⟨(k, a), reads_member.mpr ⟨r, u, hkey, hcolon, ha⟩⟩
  · refine Or.inr ?_
    rw [outcome_member hkey hcolon, h]
    rfl

/-- **The items of a container are passed if each item is.** -/
theorem passes_of_laid {texts : List (List Char)}
    (hitem : ∀ text ∈ texts, ∀ t, Stops t → Passes p (Input.ofChars text ++ t) t) {first : Bool}
    {s t : Input} (h : Laid next first s texts t) : Passes (items next p first) s t := by
  induction h with
  | closed hcloses => exact Or.inl ⟨[], reads_items.mpr (Or.inl ⟨rfl, hcloses⟩)⟩
  | item hbegins hstops hlaid ih =>
    -- an item that is out of range ends the container with its failure, and so does a later one
    rcases hitem _ List.mem_cons_self _ hstops with ⟨a, ha⟩ | herror
    · rcases ih fun text htext => hitem text (List.mem_cons_of_mem _ htext) with ⟨as, has⟩ | herror
      · exact Or.inl ⟨a :: as, reads_items.mpr (Or.inr ⟨a, as, _, _, rfl, hbegins, ha, has⟩)⟩
      · refine Or.inr ?_
        rw [outcome_items, hbegins]
        dsimp only
        rw [ha]
        dsimp only
        rw [herror]
        rfl
    · refine Or.inr ?_
      rw [outcome_items, hbegins]
      dsimp only
      rw [herror]

end

/-! ## Values -/

/-- The elements of a list stand in its text. -/
theorem laid_elements (vs : List Value) (t : Input) :
    Laid nextElement true (Input.ofChars ([','].intercalate (vs.map Value.chars)) ++ some ']' :: t)
      (vs.map Value.chars) t := by
  refine laid_intercalate separates_nextElement (fun text htext => ?_) t
  obtain ⟨v, -, rfl⟩ := List.mem_map.mp htext
  exact opens_chars v

/-- The members of an object stand in its text. -/
theorem laid_members (members : List (String × Value)) (t : Input) :
    Laid nextKey true (Input.ofChars ([','].intercalate
      (members.map fun m => memberText m.1 m.2.chars)) ++ some '\x7d' :: t)
      (members.map fun m => memberText m.1 m.2.chars) t := by
  refine laid_intercalate separates_nextKey (fun text htext => ?_) t
  obtain ⟨m, -, rfl⟩ := List.mem_map.mp htext
  exact ⟨_, rfl⟩

/-- The members of an object are read, in their order, if the values are. -/
theorem reads_members {p : Reader Value} {members : List (String × Value)}
    (h : ∀ m ∈ members, ∀ t, Stops t → Reads p (Input.ofChars m.2.chars ++ t) m.2 t) (t : Input) :
    Reads (items nextKey (member string fun _ => p) true)
      (Input.ofChars ([','].intercalate (members.map fun m => memberText m.1 m.2.chars)) ++
        some '\x7d' :: t) members t := by
  refine reads_items_of_laid (fun m hm t ht => ?_) (laid_members members t)
  rw [ofChars_memberText]
  exact reads_member.mpr ⟨_, _, reads_stringText m.1 _, rfl, h m hm t ht⟩

/-- Whatever the depth, there are readers of containers such that values are read by their parts. -/
theorem exists_valueParts (d : Nat) :
    ∃ array object, valueReader d = (valueParts array object).reader := by
  cases d with
  | zero => exact ⟨_, _, rfl⟩
  | succ d => exact ⟨_, _, rfl⟩

/-- The text of a number comes out as it does from the reader of numbers. -/
theorem outcome_valueReader_number (d : Nat) (n : Number) (t : Input) :
    outcome (valueReader d (Input.ofChars (Value.number n).chars ++ t))
      = outcome (mapValue Value.number (number (Input.ofChars n.text ++ t))) := by
  obtain ⟨array, object, hreader⟩ := exists_valueParts d
  obtain ⟨c, r, htext, hbegins⟩ := exists_numberText n
  rw [hreader, Value.chars, htext]
  exact outcome_reader_number _ hbegins _

/-- **The text of a value is read back, whatever stands behind it.** -/
theorem reads_chars {d : Nat} {v : Value} (h : v.Fits d) :
    ¬ v.HasFloat → ∀ t, Stops t → Reads (valueReader d) (Input.ofChars v.chars ++ t) v t := by
  -- scalars are read alike at every depth; a container is read with what its level leaves
  induction h with
  | @null d =>
    intro _ t _
    obtain ⟨array, object, hreader⟩ := exists_valueParts d
    rw [hreader]
    exact reads_parts.mpr .null
  | @bool d b =>
    intro _ t _
    obtain ⟨array, object, hreader⟩ := exists_valueParts d
    rw [hreader]
    cases b with
    | false => exact reads_parts.mpr .false
    | true => exact reads_parts.mpr .true
  | @integer d n hmin hmax =>
    intro _ t ht
    rw [Reads, outcome_valueReader_number]
    exact reads_mapValue.mpr ⟨_, reads_integerText hmin hmax ht, rfl⟩
  | float x => exact fun hfloat => absurd (.float x) hfloat
  | @string d s =>
    intro _ t _
    obtain ⟨array, object, hreader⟩ := exists_valueParts d
    rw [hreader, Value.chars, ofChars_stringText]
    exact reads_parts.mpr (.string (reads_mapValue.mpr ⟨s, reads_stringTail s t, rfl⟩))
  | @array d elements _ ih =>
    intro hfloat t _
    rw [Value.chars, itemTexts_eq_map, ofChars_listText]
    refine reads_parts.mpr (.array (reads_mapValue.mpr ⟨elements, ?_, rfl⟩))
    exact reads_items_of_laid (fun v hv => ih v hv fun hv' => hfloat (.element hv hv'))
      (laid_elements elements t)
  | @object d members hordered _ ih =>
    intro hfloat t _
    rw [Value.chars, memberTexts_eq_map, ofChars_listText]
    refine reads_parts.mpr (.object (reads_mapValue.mpr ⟨members, ?_, ?_⟩))
    · exact reads_members (fun m hm => ih m hm fun hm' => hfloat (.member hm hm')) t
    · -- the members stand in order in the text, and collecting keeps that order
      exact congrArg Value.object (collectMembers_of_keysOrdered hordered)

/-- **The text of a value is passed, whatever stands behind it.** -/
theorem passes_chars {d : Nat} {v : Value} (h : v.Fits d) :
    ∀ t, Stops t → Passes (valueReader d) (Input.ofChars v.chars ++ t) t := by
  induction h with
  | null => exact fun t ht => Or.inl ⟨_, reads_chars .null nofun t ht⟩
  | bool b => exact fun t ht => Or.inl ⟨_, reads_chars (.bool b) nofun t ht⟩
  | integer hmin hmax => exact fun t ht => Or.inl ⟨_, reads_chars (.integer hmin hmax) nofun t ht⟩
  | string s => exact fun t ht => Or.inl ⟨_, reads_chars (.string s) nofun t ht⟩
  | @float d x =>
    intro t ht
    refine .of_outcome (outcome_valueReader_number d (.float x) t) (passes_mapValue ?_)
    rcases outcome_floatText x ht with ⟨y, hy⟩ | herror
    · exact Or.inl ⟨_, hy⟩
    · exact Or.inr herror
  | @array d elements _ ih =>
    intro t _
    rw [Value.chars, itemTexts_eq_map, ofChars_listText]
    refine .of_outcome (outcome_reader_array _ _) (passes_mapValue ?_)
    refine passes_of_laid (fun text htext t ht => ?_) (laid_elements elements t)
    obtain ⟨v, hv, rfl⟩ := List.mem_map.mp htext
    exact ih v hv t ht
  | @object d members _ _ ih =>
    intro t _
    rw [Value.chars, memberTexts_eq_map, ofChars_listText]
    refine .of_outcome (outcome_reader_object _ _) (passes_mapValue ?_)
    refine passes_of_laid (fun text htext t ht => ?_) (laid_members members t)
    obtain ⟨m, hm, rfl⟩ := List.mem_map.mp htext
    rw [ofChars_memberText]
    exact passes_member (reads_stringText m.1 _) rfl (ih m hm t ht)

/-! ## Whole texts -/

theorem whole_error {α : Type} {p : Reader α} {s : Input} {cause : Cause}
    (h : outcome (p s) = .error cause) : ∃ f, whole p s = .error f ∧ f.cause = cause := by
  unfold whole
  cases hp : p s with
  | ok result => rw [hp] at h; cases h
  | error f =>
    rw [hp] at h
    cases h
    exact ⟨f, rfl, rfl⟩

/-- **The text of a value is read as the value.** -/
theorem parse_text {v : Value} (h : v.Fits maxDepth) (hfloat : ¬ v.HasFloat) :
    parse v.text = .ok v := by
  have hread := reads_chars h hfloat [] stops_nil
  rw [List.append_nil] at hread
  unfold parse Value.text
  rw [String.toList_ofList, whole_ok_iff.mpr ⟨[], hread, rfl⟩]
  rfl

/-- **The text of a value can only be refused for a floating point number that is out of range.** -/
theorem parse_text_error {v : Value} (h : v.Fits maxDepth) {e : Error}
    (he : parse v.text = .error e) : v.HasFloat ∧ e.cause = .numberOutOfRange := by
  constructor
  · by_contra hfloat
    rw [parse_text h hfloat] at he
    cases he
  · have hpasses := passes_chars h [] stops_nil
    rw [List.append_nil] at hpasses
    unfold parse Value.text at he
    rw [String.toList_ofList] at he
    rcases hpasses with ⟨w, hread⟩ | herror
    · rw [whole_ok_iff.mpr ⟨[], hread, rfl⟩] at he
      cases he
    · obtain ⟨f, hf, hcause⟩ := whole_error herror
      rw [hf] at he
      cases he
      exact hcause

end SecretClient.Json
