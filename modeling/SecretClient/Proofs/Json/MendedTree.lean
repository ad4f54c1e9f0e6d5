import SecretClient.Proofs.Json.Field
import SecretClient.Proofs.Json.Mending

/-!
# The trees of mended texts

A text has a tree exactly if the mended text has one, for U+FFFD takes the place of what is no
character only inside strings. The two trees differ in the strings that mending has made texts.

* `mends_tree`, `exists_whole_tree_mended_iff` : the trees of a text and of the mended text
* `Tree.Mended.value?_eq_some_iff` : what has a value in the mended tree has it in the tree itself
  exactly if all strings in it are texts
* `exists_of_objectReader_mended` : what an object of a mended text has under a key
-/

namespace SecretClient.Json

open Utf8 (mapM_eq_some_iff)

/-- A tree, and the tree of the mended text. -/
inductive Tree.Mended : Tree → Tree → Prop
  | null : Mended .null .null
  | bool (b : Bool) : Mended (.bool b) (.bool b)
  | number (l : Literal) : Mended (.number l) (.number l)
  | string {o o' : Option String} : MendedText o o' → Mended (.string o) (.string o')
  | array {os os' : List Tree} : List.Forall₂ Mended os os' → Mended (.array os) (.array os')
  | object {ms ms' : List (Option String × Tree)} :
      List.Forall₂ MendedText (ms.map Prod.fst) (ms'.map Prod.fst) →
      List.Forall₂ Mended (ms.map Prod.snd) (ms'.map Prod.snd) → Mended (.object ms) (.object ms')

/-! ## Reading mended trees -/

theorem mends_tooDeep {α β : Type} (bracket : Char) (R : α → β → Prop) :
    Mends (tooDeep bracket) (tooDeep bracket) R where
  there hread := absurd hread not_reads_tooDeep
  back hread := absurd hread not_reads_tooDeep

/-- A member of an object and the one in its place. -/
def MendedMember (m n : Option String × Tree) : Prop := MendedText m.1 n.1 ∧ m.2.Mended n.2

/-- Members are mended one by one, in their keys and in what they hold. -/
theorem forall₂_mendedMember_iff {ms ms' : List (Option String × Tree)} :
    List.Forall₂ MendedMember ms ms' ↔
      List.Forall₂ MendedText (ms.map Prod.fst) (ms'.map Prod.fst) ∧
        List.Forall₂ Tree.Mended (ms.map Prod.snd) (ms'.map Prod.snd) := by
  induction ms generalizing ms' with
  | nil => cases ms' <;> simp
  | cons m ms ih =>
    cases ms' with
    | nil => simp
    | cons m' ms' =>
      simp only [List.map_cons, List.forall₂_cons, ih, MendedMember]
      tauto

/-- Trees are mended if their elements and members are. -/
theorem mends_treeParts {elements elements' : Reader (List Tree)}
    {members members' : Reader (List (Option String × Tree))}
    (helements : Mends elements elements' (List.Forall₂ Tree.Mended))
    (hmembers : Mends members members' (List.Forall₂ MendedMember)) :
    Mends (treeParts elements members).reader (treeParts elements' members').reader
      Tree.Mended where
  there {s t o} hread := by
    simp only [reads_parts, dropWhile_mended] at hread ⊢
    generalize s.dropWhile isBlank = s at hread
    cases hread with
    | null => exact ⟨.null, .null, .null⟩
    | true => exact ⟨.bool true, .true, .bool true⟩
    | false => exact ⟨.bool false, .false, .bool false⟩
    | string hread =>
      obtain ⟨a, ha, rfl⟩ := reads_mapValue.mp hread
      obtain ⟨b, hb, hab⟩ := mends_stringTree.there ha
      exact ⟨.string b, .string (reads_mapValue.mpr ⟨b, hb, rfl⟩), .string hab⟩
    | array hread =>
      obtain ⟨os, hos, rfl⟩ := reads_mapValue.mp hread
      obtain ⟨os', hos', h⟩ := helements.there hos
      exact ⟨.array os', .array (reads_mapValue.mpr ⟨os', hos', rfl⟩), .array h⟩
    | object hread =>
      obtain ⟨ms, hms, rfl⟩ := reads_mapValue.mp hread
      obtain ⟨ms', hms', h⟩ := hmembers.there hms
      obtain ⟨hkeys, hvalues⟩ := forall₂_mendedMember_iff.mp h
      exact ⟨.object ms', .object (reads_mapValue.mpr ⟨ms', hms', rfl⟩), .object hkeys hvalues⟩
    | number hc hread =>
      obtain ⟨l, hl, rfl⟩ := reads_mapValue.mp hread
      obtain ⟨_, hl', rfl⟩ := mends_literal.there hl
      exact ⟨.number l, .number ((beginsNumber_mend _).trans hc) (reads_mapValue.mpr ⟨l, hl', rfl⟩),
        .number l⟩
  back {s u o} hread := by
    simp only [reads_parts, dropWhile_mended] at hread ⊢
    generalize s.dropWhile isBlank = s at hread
    generalize hs : mended s = s' at hread
    cases hread with
    | null =>
      obtain ⟨t, rfl, -⟩ := (mended_eq_append_iff (show '\uFFFD' ∉ "null".toList by decide)).mp hs
      exact ⟨.null, t, .null⟩
    | true =>
      obtain ⟨t, rfl, -⟩ := (mended_eq_append_iff (show '\uFFFD' ∉ "true".toList by decide)).mp hs
      exact ⟨.bool true, t, .true⟩
    | false =>
      obtain ⟨t, rfl, -⟩ := (mended_eq_append_iff (show '\uFFFD' ∉ "false".toList by decide)).mp hs
      exact ⟨.bool false, t, .false⟩
    | string hread =>
      obtain ⟨r, rfl, rfl⟩ := (mended_eq_cons_iff (by decide)).mp hs
      obtain ⟨a, ha, -⟩ := reads_mapValue.mp hread
      obtain ⟨b, t, hb⟩ := mends_stringTree.back ha
      exact ⟨.string b, t, .string (reads_mapValue.mpr ⟨b, hb, rfl⟩)⟩
    | array hread =>
      obtain ⟨r, rfl, rfl⟩ := (mended_eq_cons_iff (by decide)).mp hs
      obtain ⟨os, hos, -⟩ := reads_mapValue.mp hread
      obtain ⟨os', t, hos'⟩ := helements.back hos
      exact ⟨.array os', t, .array (reads_mapValue.mpr ⟨os', hos', rfl⟩)⟩
    | object hread =>
      obtain ⟨r, rfl, rfl⟩ := (mended_eq_cons_iff (by decide)).mp hs
      obtain ⟨ms, hms, -⟩ := reads_mapValue.mp hread
      obtain ⟨ms', t, hms'⟩ := hmembers.back hms
      exact ⟨.object ms', t, .object (reads_mapValue.mpr ⟨ms', hms', rfl⟩)⟩
    | number hc hread =>
      obtain ⟨l, hl, -⟩ := reads_mapValue.mp hread
      rw [← hs] at hl
      obtain ⟨c, r, rfl, rfl, -⟩ := List.map_eq_cons_iff.mp hs
      obtain ⟨l', t, hl'⟩ := mends_literal.back hl
      exact ⟨.number l', t, .number ((beginsNumber_mend c).symm.trans hc)
        (reads_mapValue.mpr ⟨l', hl', rfl⟩)⟩

theorem startsElement_mended (s : Input) : StartsElement (mended s) ↔ StartsElement s := by
  constructor
  · rintro ⟨c, r, hs, hblank, hc⟩
    obtain ⟨o, t, rfl, rfl, rfl⟩ := List.map_eq_cons_iff.mp hs
    rw [isBlank_mend] at hblank
    exact ⟨o, t, rfl, hblank, fun ho => hc ((mend_eq_some_iff (by decide)).mpr ho)⟩
  · rintro ⟨c, r, rfl, hblank, hc⟩
    refine ⟨mend c, mended r, rfl, (isBlank_mend c).trans hblank, fun h => hc ?_⟩
    exact (mend_eq_some_iff (by decide)).mp h

theorem startsMember_mended (s : Input) : StartsMember (mended s) ↔ StartsMember s := by
  constructor
  · rintro ⟨r, hs⟩
    obtain ⟨t, rfl, -⟩ := (mended_eq_cons_iff (by decide)).mp hs
    exact ⟨t, rfl⟩
  · rintro ⟨r, rfl⟩
    exact ⟨mended r, rfl⟩

theorem mends_treeReader : ∀ d : Nat, Mends (treeReader d) (treeReader d) Tree.Mended
  | 0 => mends_treeParts (mends_tooDeep _ _) (mends_tooDeep _ _)
  | d + 1 => mends_treeParts
      ((mends_treeReader d).items delimits_nextElement (by decide) startsElement_mended true)
      ((mends_stringTree.afterFirst.member (mends_treeReader d)).items delimits_nextKey (by decide)
        startsMember_mended true)

/-- **The trees of a text and of the mended text** have their strings in the same places. -/
theorem mends_tree : Mends tree tree Tree.Mended where
  there {s t o} hread := by
    obtain ⟨o', ho', h⟩ := (mends_treeReader s.length).there hread
    refine ⟨o', ?_, h⟩
    change Reads (treeReader (mended s).length) (mended s) o' (mended t)
    rw [length_mended]
    exact ho'
  back {s u o} hread := by
    change Reads (treeReader (mended s).length) (mended s) o u at hread
    rw [length_mended] at hread
    exact (mends_treeReader s.length).back hread

/-- **A text has a tree exactly if the mended text has one.** -/
theorem exists_whole_tree_mended_iff {s : Input} :
    (∃ o, whole tree (mended s) = .ok o) ↔ ∃ o, whole tree s = .ok o := by
  constructor
  · rintro ⟨o', ho'⟩
    obtain ⟨o, ho, -⟩ := mends_tree.of_whole_ok ho'
    exact ⟨o, ho⟩
  · rintro ⟨o, ho⟩
    obtain ⟨o', ho', -⟩ := mends_tree.whole_ok ho
    exact ⟨o', ho'⟩

/-! ## Trees that mending leaves alone -/

namespace Tree

/-- All strings of the tree are texts. -/
inductive Intact : Tree → Prop
  | null : Intact .null
  | bool (b : Bool) : Intact (.bool b)
  | number (l : Literal) : Intact (.number l)
  | string (t : String) : Intact (.string (some t))
  | array {os : List Tree} : (∀ o ∈ os, Intact o) → Intact (.array os)
  | object {ms : List (Option String × Tree)} : Keyed ms → (∀ m ∈ ms, Intact m.2) →
      Intact (.object ms)

/-- What is related only to itself, element by element. -/
theorem eq_of_forall₂ {α : Type} {R : α → α → Prop} {as bs : List α} (h : List.Forall₂ R as bs)
    (hR : ∀ a ∈ as, ∀ b, R a b → b = a) : bs = as := by
  have hboth := (List.forall₂_and_left as bs).mpr ⟨hR, h⟩
  have heq : List.Forall₂ Eq as bs := hboth.imp fun a b hab => (hab.1 b hab.2).symm
  rw [List.forall₂_eq_eq_eq] at heq
  exact heq.symm

/-- **A tree whose strings are texts is not changed by mending.** -/
theorem Mended.eq_of_intact {o o' : Tree} (h : o.Mended o') (hintact : o.Intact) : o' = o := by
  induction hintact generalizing o' with
  | null => cases h; rfl
  | bool => cases h; rfl
  | number => cases h; rfl
  | string t =>
    cases h with
    | string h =>
      cases h
      rfl
  | @array os _ ih =>
    cases h with
    | array h => exact congrArg Tree.array (eq_of_forall₂ h ih)
  | @object ms hkeyed _ ih =>
    cases h with
    | @object _ ms' hkeys hvalues =>
      have hfst : ms'.map Prod.fst = ms.map Prod.fst := by
        refine eq_of_forall₂ hkeys fun k hk k' hkk' => ?_
        obtain ⟨m, hm, rfl⟩ := List.mem_map.mp hk
        obtain ⟨key, hkey⟩ := Option.isSome_iff_exists.mp (hkeyed m hm)
        rw [hkey] at hkk' ⊢
        cases hkk'
        rfl
      have hsnd : ms'.map Prod.snd = ms.map Prod.snd := by
        refine eq_of_forall₂ hvalues fun o ho o' hoo' => ?_
        obtain ⟨m, hm, rfl⟩ := List.mem_map.mp ho
        exact ih m hm hoo'
      refine congrArg Tree.object ?_
      rw [← List.zip_unzip ms', ← List.zip_unzip ms, List.unzip_eq_map, List.unzip_eq_map]
      exact congrArg₂ List.zip hfst hsnd

/-- Only a tree whose strings are texts has a value. -/
theorem intact_of_value? {d : Nat} {o : Tree} {v : Value} (h : o.value? d = some v) : o.Intact := by
  induction d generalizing o v with
  | zero =>
    cases o with
    | null => exact .null
    | bool b => exact .bool b
    | number l => exact .number l
    | string t =>
      obtain ⟨t, rfl, -⟩ := Option.map_eq_some_iff.mp h
      exact .string t
    | array | object => cases h
  | succ d ih =>
    cases o with
    | null => exact .null
    | bool b => exact .bool b
    | number l => exact .number l
    | string t =>
      obtain ⟨t, rfl, -⟩ := Option.map_eq_some_iff.mp h
      exact .string t
    | array os =>
      obtain ⟨vs, hvs, -⟩ := Option.map_eq_some_iff.mp h
      refine .array fun o ho => ?_
      obtain ⟨w, hw⟩ := exists_of_mapM hvs ho
      exact ih hw
    | object ms =>
      obtain ⟨listed, hlisted, -⟩ := Option.map_eq_some_iff.mp h
      refine .object (keyed_of_mapM (fun _ => rfl) hlisted) fun m hm => ?_
      obtain ⟨n, hn⟩ := exists_of_mapM hlisted hm
      obtain ⟨key, -, hvalue⟩ := Option.bind_eq_some_iff.mp hn
      obtain ⟨w, hw, -⟩ := Option.map_eq_some_iff.mp hvalue
      exact ih hw

/-- **What has a value in a mended tree has it in the tree itself exactly if its strings are texts**,
and no value otherwise. -/
theorem Mended.value?_eq_some_iff {d : Nat} {o o' : Tree} {v : Value} (h : o.Mended o')
    (hv : o'.value? d = some v) : o.value? d = some v ↔ o.Intact := by
  constructor
  · exact intact_of_value?
  · intro hintact
    rw [← h.eq_of_intact hintact]
    exact hv

/-! ## The members of a key -/

/-- What a key without U+FFFD holds in a mended tree is what it holds in the tree itself. -/
theorem mended_held {name : String} (hname : '\uFFFD' ∉ name.toList)
    {ms ms' : List (Option String × Tree)} (h : List.Forall₂ MendedMember ms ms') :
    List.Forall₂ Mended (held (some name) ms) (held (some name) ms') := by
  refine List.rel_filterMap (fun m n hmn => ?_) h
  obtain ⟨key, o⟩ := m
  obtain ⟨key', o'⟩ := n
  obtain ⟨hkey, ho⟩ : MendedText key key' ∧ o.Mended o' := hmn
  cases hkey with
  | same =>
    split
    · exact .some ho
    · exact .none
  | @replaced t ht =>
    have hne : t ≠ name := fun heq => hname (heq ▸ ht)
    simp only [reduceCtorEq, Option.some.injEq, hne, if_false]
    exact .none

/-- The last of what is listed, and what stands in its place. -/
theorem exists_getLast? {α β : Type} {R : α → β → Prop} {as : List α} {bs : List β}
    (h : List.Forall₂ R as bs) {b : β} (hb : bs.getLast? = some b) :
    ∃ a, as.getLast? = some a ∧ R a b := by
  rw [← List.forall₂_reverse_iff] at h
  rw [List.getLast?_eq_head?_reverse] at hb ⊢
  generalize bs.reverse = bs at h hb
  generalize as.reverse = as at h
  cases h with
  | nil => cases hb
  | cons hab _ =>
    cases hb
    exact ⟨_, rfl, hab⟩

end Tree

/-! ## Objects of mended texts -/

/-- An object is read alike as a map and as a value. -/
theorem reads_mapReader_iff_reads_valueReader {d : Nat} {s t : Input}
    {members : List (String × Value)} :
    Reads (mapReader (valueReader d)) s members t ↔
      Reads (valueReader (d + 1)) s (.object members) t := by
  rw [mapReader, reads_beginning, valueReader, reads_parts]
  generalize s.dropWhile isBlank = s
  constructor
  · rintro ⟨r, rfl, hread⟩
    obtain ⟨listed, hlisted, rfl⟩ := reads_mapValue.mp hread
    exact .object (reads_mapValue.mpr ⟨listed, hlisted, rfl⟩)
  · intro h
    generalize hv : Value.object members = v at h
    cases h with
    | null | true | false => cases hv
    | string h | number _ h | array h =>
      obtain ⟨_, -, rfl⟩ := reads_mapValue.mp h
      cases hv
    | object h =>
      obtain ⟨listed, hlisted, rfl⟩ := reads_mapValue.mp h
      cases hv
      exact ⟨_, rfl, reads_mapValue.mpr ⟨listed, hlisted, rfl⟩⟩

/-- **An object is decoded from the tree of its text.** -/
theorem whole_objectReader_iff {s : Input} {members : List (String × Value)} :
    whole objectReader s = .ok members ↔
      ∃ o, whole tree s = .ok o ∧ o.value? maxDepth = some (.object members) := by
  rw [← (decodes_valueReader maxDepth).whole_eq_ok_iff, whole_ok_iff, whole_ok_iff]
  exact exists_congr fun t => and_congr_left fun _ => reads_mapReader_iff_reads_valueReader

/-- **What an object of a mended text has under a key** is the value of what stands in its place in
the tree of the text itself. -/
theorem exists_of_objectReader_mended {s : Input} {members : List (String × Value)} {name : String}
    (hname : '\uFFFD' ∉ name.toList) (h : whole objectReader (mended s) = .ok members) {v : Value}
    (hv : members.lookup name = some v) :
    ∃ ms x x', whole tree s = .ok (.object ms) ∧ (held (some name) ms).getLast? = some x ∧
      x.Mended x' ∧ x'.value? (maxDepth - 1) = some v := by
  obtain ⟨o', ho', hmembers⟩ := whole_objectReader_iff.mp h
  obtain ⟨o, ho, hmended⟩ := mends_tree.of_whole_ok ho'
  cases hmended with
  | null | bool => cases hmembers
  | number | string =>
    obtain ⟨n, -, hn⟩ := Option.map_eq_some_iff.mp hmembers
    cases hn
  | array =>
    obtain ⟨vs, -, hvs⟩ := Option.map_eq_some_iff.mp hmembers
    cases hvs
  | @object ms ms' hkeys hvalues =>
    obtain ⟨listed, hlisted, heq⟩ := Option.map_eq_some_iff.mp hmembers
    cases heq
    rw [lookup_collectMembers, lookup_reverse] at hv
    have hheld : (held (some name) ms').mapM (Tree.value? (maxDepth - 1)) = some (held name listed) :=
      Tree.mapM_held_of_members hlisted
    rw [mapM_eq_some_iff] at hheld
    have hlast := congrArg List.getLast? hheld
    rw [List.getLast?_map, List.getLast?_map, hv] at hlast
    obtain ⟨x', hx', hvalue⟩ := Option.map_eq_some_iff.mp hlast
    obtain ⟨x, hx, hmended⟩ := Tree.exists_getLast?
      (Tree.mended_held hname (forall₂_mendedMember_iff.mpr ⟨hkeys, hvalues⟩)) hx'
    exact ⟨ms, x, x', ho, hx, hmended, hvalue⟩

end SecretClient.Json
