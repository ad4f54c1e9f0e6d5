import SecretClient.Proofs.Json.Part

/-!
# Places in a text

A place is told by the way to it: into which element of a list, and into the value of which key of an
object. Of a key that an object lists more than once, the value that is listed last is meant. So a
place belongs to a text as well as to the value that the text denotes.

* `Grammar.At.unique` : there is one text at most at a place
* `Grammar.At.exists_denotes`, `Grammar.Denotes.exists_at` : the text at a place denotes the value at
  the same place
* `at_chars` : what is written for a value has at each place what is written for the value there
-/

namespace SecretClient.Json

open Grammar (Blanks)

/-! ## Ways into a value -/

/-- A step into a container. -/
inductive Branch where
  | element (i : Nat)
  | member (key : String)

/-- The steps that lead to a place, the outermost first. -/
abbrev Place := List Branch

namespace Value

/-- What a container holds behind one step. -/
def child? : Value → Branch → Option Value
  | .array vs, .element i => vs[i]?
  | .object members, .member key => members.lookup key
  | _, _ => none

/-- What a value holds at a place. -/
def at? (v : Value) : Place → Option Value
  | [] => some v
  | b :: place => (v.child? b).bind (·.at? place)

end Value

/-- What stands at a place of a text whose containers nest at most so deep. -/
inductive Grammar.At (g : Grammar) : Nat → List Char → Place → List Char → Prop
  | here {d : Nat} {text : List Char} {v : Value} : g.Denotes d text v → At g d text [] text
  | element {d i : Nat} {inner part sub : List Char} {parts : List (List Char)} {place : Place} :
      g.Listed (g.Part d) inner parts → parts[i]? = some part → At g d part place sub →
      At g (d + 1) ('[' :: inner ++ [']']) (.element i :: place) sub
  | member {d : Nat} {key : String} {inner part sub : List Char}
      {listed : List (String × List Char)} {place : Place} :
      g.Listed (g.Member (g.Part d)) inner listed → g.keys (listed.map Prod.fst) →
      listed.reverse.lookup key = some part → At g d part place sub →
      At g (d + 1) ('\x7b' :: inner ++ ['\x7d']) (.member key :: place) sub

/-! ## What is found in related containers -/

theorem keys_eq {α β : Type} {ms : List (String × α)} {ns : List (String × β)}
    (h : List.Forall₂ (fun m n => m.1 = n.1) ms ns) :
    ms.map Prod.fst = ns.map Prod.fst := by
  rwa [← List.forall₂_eq_eq_eq, List.forall₂_map_left_iff, List.forall₂_map_right_iff]

/-- What is found by a key among members has what is found by it among related ones. -/
theorem exists_lookup {α β : Type} {R : α → β → Prop} {ms : List (String × α)}
    {ns : List (String × β)} (h : List.Forall₂ (fun m n => m.1 = n.1 ∧ R m.2 n.2) ms ns)
    {key : String} {a : α} (ha : ms.lookup key = some a) : ∃ b, ns.lookup key = some b ∧ R a b := by
  induction h with
  | nil => cases ha
  | @cons m n ms ns hmn _ ih =>
    obtain ⟨hkey, hR⟩ := hmn
    rw [List.lookup_cons] at ha ⊢
    rw [← hkey]
    split at ha
    · cases ha
      exact ⟨n.2, rfl, hR⟩
    · exact ih ha

theorem exists_getElem? {α β : Type} {R : α → β → Prop} {as : List α} {bs : List β}
    (h : List.Forall₂ R as bs) {i : Nat} {a : α} (ha : as[i]? = some a) :
    ∃ b, bs[i]? = some b ∧ R a b := by
  obtain ⟨hi, rfl⟩ := List.getElem?_eq_some_iff.mp ha
  have hj : i < bs.length := h.length_eq ▸ hi
  exact ⟨bs[i], List.getElem?_eq_getElem hj, h.get hi hj⟩

/-! ## What is denoted at a place -/

section

variable {g : Grammar} {d : Nat} {text sub : List Char} {place : Place} {v w : Value}

/-- **There is one text at most at a place.** -/
theorem Grammar.At.unique (hgap : ∀ {text}, g.gap text → Blanks text) {sub' : List Char}
    (h : g.At d text place sub) (h' : g.At d text place sub') : sub = sub' := by
  induction h with
  | here => cases h'; rfl
  | element hlisted hpart _ ih =>
    generalize htext : '[' :: _ ++ [']'] = text at h'
    cases h' with
    | element hlisted' hpart' hsub =>
      cases List.append_cancel_right htext
      cases hlisted.parts_unique hgap hlisted'
      cases hpart.symm.trans hpart'
      exact ih hsub
  | member hlisted _ hpart _ ih =>
    generalize htext : '\x7b' :: _ ++ ['\x7d'] = text at h'
    cases h' with
    | member hlisted' _ hpart' hsub =>
      cases List.append_cancel_right htext
      cases hlisted.memberParts_unique hgap hlisted'
      cases hpart.symm.trans hpart'
      exact ih hsub

/-- A text with something at a place denotes a value. -/
theorem Grammar.At.exists_value (h : g.At d text place sub) : ∃ v, g.Denotes d text v := by
  cases h with
  | here hv => exact ⟨_, hv⟩
  | element hlisted =>
    obtain ⟨vs, hvs, -⟩ := hlisted.lift (q := g.Denotes _) (R := fun _ _ => True)
      fun ⟨_, v, hv⟩ => ⟨v, hv, trivial⟩
    exact ⟨_, Or.inr (.array hvs)⟩
  | member hlisted hkeys =>
    obtain ⟨listed, hmembers, hall⟩ := hlisted.lift fun hm => hm.lift (q := g.Denotes _)
      (R := fun _ _ => True) fun ⟨_, v, hv⟩ => ⟨v, hv, trivial⟩
    rw [← keys_eq (hall.imp fun _ _ h => h.1)] at hkeys
    exact ⟨_, Or.inr (.object hmembers hkeys (latest_collectMembers listed))⟩

/-- **The text at a place denotes the value at the same place.** -/
theorem Grammar.At.exists_denotes (hgap : ∀ {text}, g.gap text → Blanks text)
    (h : g.At d text place sub) :
    ∀ {v}, g.Denotes d text v →
      ∃ w, v.at? place = some w ∧ g.Denotes (d - place.length) sub w := by
  induction h with
  | here => exact fun {v} hv => ⟨v, rfl, hv⟩
  | element hlisted hfound _ ih =>
    intro v hv
    obtain ⟨vs, rfl, hvs⟩ := hv.exists_array
    obtain ⟨parts, hparts, hall⟩ := hvs.exists_parts
    cases hlisted.parts_unique hgap hparts
    obtain ⟨u, hu, hdenotes⟩ := exists_getElem? hall hfound
    obtain ⟨w, hw, hsub⟩ := ih hdenotes
    refine ⟨w, by simpa [Value.at?, Value.child?, hu] using hw, ?_⟩
    rwa [List.length_cons, Nat.add_sub_add_right]
  | member hlisted _ hfound _ ih =>
    intro v hv
    obtain ⟨listed, members, rfl, hmembers, hlatest⟩ := hv.exists_object
    obtain ⟨parts, hparts, hall⟩ := hmembers.exists_memberParts
    cases hlisted.memberParts_unique hgap hparts
    obtain ⟨u, hu, hdenotes⟩ := exists_lookup (List.forall₂_reverse_iff.mpr hall) hfound
    obtain ⟨w, hw, hsub⟩ := ih hdenotes
    rw [← hlatest.lookup] at hu
    refine ⟨w, by simpa [Value.at?, Value.child?, hu] using hw, ?_⟩
    rwa [List.length_cons, Nat.add_sub_add_right]

theorem Grammar.Scalar.child?_eq_none (h : g.Scalar text v) (b : Branch) : v.child? b = none := by
  cases h <;> rfl

/-- **Where a value has another inside, a text of it has one of the other.** -/
theorem Grammar.Denotes.exists_at (h : g.Denotes d text v) (hw : v.at? place = some w) :
    ∃ sub, g.At d text place sub ∧ g.Denotes (d - place.length) sub w := by
  induction place generalizing d text v with
  | nil =>
    cases hw
    exact ⟨text, .here h, h⟩
  | cons b place ih =>
    obtain ⟨u, hu, hsub⟩ := Option.bind_eq_some_iff.mp hw
    cases d with
    | zero => simp [Scalar.child?_eq_none h b] at hu
    | succ d =>
      rw [List.length_cons, Nat.add_sub_add_right]
      rcases h with h | h
      · simp [h.child?_eq_none b] at hu
      · cases h with
        | array hlisted =>
          cases b with
          | member => cases hu
          | element i =>
            obtain ⟨parts, hparts, hall⟩ := hlisted.exists_parts
            obtain ⟨part, hpart, hdenotes⟩ := exists_getElem? hall.flip hu
            obtain ⟨sub, hat, hsub⟩ := ih hdenotes hsub
            exact ⟨sub, .element hparts hpart hat, hsub⟩
        | object hlisted hkeys hlatest =>
          cases b with
          | element => cases hu
          | member key =>
            obtain ⟨parts, hparts, hall⟩ := hlisted.exists_memberParts
            have hback := (List.forall₂_reverse_iff.mpr hall).flip
            have hlast := (hlatest.lookup key).symm.trans hu
            obtain ⟨part, hpart, hdenotes⟩ := exists_lookup (R := fun u part => g.Denotes d part u)
              (hback.imp fun _ _ h => ⟨h.1.symm, h.2⟩) hlast
            obtain ⟨sub, hat, hsub⟩ := ih hdenotes hsub
            rw [← keys_eq (hall.imp fun _ _ h => h.1)] at hkeys
            exact ⟨sub, .member hparts hkeys hpart hat, hsub⟩

theorem lookup_map_value {α β : Type} (f : α → β) (members : List (String × α)) (key : String) :
    (members.map fun m => (m.1, f m.2)).lookup key = (members.lookup key).map f := by
  induction members with
  | nil => rfl
  | cons m members ih =>
    rw [List.map_cons, List.lookup_cons, List.lookup_cons, ih]
    split <;> rfl

/-- Keys in order are listed once each, so that the first member with a key is the last one. -/
theorem lookup_reverse_of_keysOrdered {α : Type} {members : List (String × α)}
    (h : KeysOrdered members) (key : String) : members.reverse.lookup key = members.lookup key :=
  ((latest_iff.mpr (collectMembers_of_keysOrdered h).symm).lookup key).symm

/-- The text of a list has the texts of its elements. -/
theorem listed_elementChars {vs : List Value} (h : ∀ v ∈ vs, v.Fits d) :
    Grammar.compact.Listed (Grammar.compact.Part d) ([','].intercalate (vs.map Value.chars))
      (vs.map Value.chars) := by
  have hlisted : Grammar.compact.Listed (Grammar.compact.Part d)
      ([','].intercalate ((vs.map Value.chars).map id)) (vs.map Value.chars) := by
    refine listed_intercalate fun text htext => ?_
    obtain ⟨v, hv, rfl⟩ := List.mem_map.mp htext
    exact ⟨rfl, v, denotes_chars (h v hv)⟩
  rwa [List.map_id] at hlisted

/-- The text of an object has the texts of its members. -/
theorem listed_memberChars {members : List (String × Value)} (h : ∀ m ∈ members, m.2.Fits d) :
    Grammar.compact.Listed (Grammar.compact.Member (Grammar.compact.Part d))
      ([','].intercalate (members.map fun m => memberText m.1 m.2.chars))
      (members.map fun m => (m.1, m.2.chars)) := by
  have hlisted : Grammar.compact.Listed (Grammar.compact.Member (Grammar.compact.Part d))
      ([','].intercalate
        ((members.map fun m => (m.1, m.2.chars)).map fun m => memberText m.1 m.2))
      (members.map fun m => (m.1, m.2.chars)) := by
    refine listed_intercalate fun n hn => ?_
    obtain ⟨m, hm, rfl⟩ := List.mem_map.mp hn
    exact member_compact ⟨rfl, m.2, denotes_chars (h m hm)⟩
  rwa [List.map_map] at hlisted

/-- **Where a value has another inside, its text has the text of the other.** -/
theorem at_chars (h : v.Fits d) (hw : v.at? place = some w) :
    Grammar.compact.At d v.chars place w.chars := by
  induction place generalizing d v with
  | nil =>
    cases hw
    exact .here (denotes_chars h)
  | cons b place ih =>
    obtain ⟨u, hu, hsub⟩ := Option.bind_eq_some_iff.mp hw
    cases h with
    | @array d vs hvs =>
      cases b with
      | member => cases hu
      | element i =>
        change vs[i]? = some u at hu
        have hfound : (vs.map Value.chars)[i]? = some u.chars := by
          rw [List.getElem?_map, hu]
          rfl
        rw [Value.chars, itemTexts_eq_map]
        exact .element (listed_elementChars hvs) hfound
          (ih (hvs u (List.mem_of_getElem? hu)) hsub)
    | @object d members hordered hms =>
      cases b with
      | element => cases hu
      | member key =>
        change members.lookup key = some u at hu
        have hkeys : Grammar.compact.keys ((members.map fun m => (m.1, m.2.chars)).map Prod.fst) := by
          rw [List.map_map]
          exact keys_compact hordered
        have hfound : (members.map fun m => (m.1, m.2.chars)).reverse.lookup key
            = some u.chars := by
          rw [← List.map_reverse, lookup_map_value, lookup_reverse_of_keysOrdered hordered, hu]
          rfl
        rw [Value.chars, memberTexts_eq_map]
        exact .member (listed_memberChars hms) hkeys hfound (ih (hms _ (mem_of_lookup hu)) hsub)
    | _ => cases b <;> cases hu

end

end SecretClient.Json
