import Mathlib.Data.List.Induction
import Mathlib.Data.String.Basic
import SecretClient.Json.Shape

/-!
# Members of objects

An object keeps of the members that its text lists the last one with each key, in the order of the
keys.

* `lookup_collectMembers` : the value of a key is the one that was listed last
* `keysOrdered_collectMembers`, `collectMembers_of_keysOrdered` : the members are put into order, and
  members in order stay as they are
* `KeysOrdered.ext` : members in order are determined by the values of the keys
* `decode_objectReader` : what an object is read as, by the members that its text lists
-/

namespace SecretClient.Json

variable {α : Type}

/-- Members in the order of their keys, each key once. -/
def KeysOrdered (members : List (String × α)) : Prop := members.Pairwise fun m n => m.1 < n.1

/-! ## Putting a member into its place -/

theorem mem_putMember {key : String} {value : α} {m : String × α} :
    ∀ {members : List (String × α)}, m ∈ putMember key value members →
      m = (key, value) ∨ m ∈ members
  | [], h => Or.inl (List.mem_singleton.mp h)
  | (k, v) :: rest, h => by
    unfold putMember at h
    split at h
    · exact List.mem_cons.mp h
    · split at h
      · rcases List.mem_cons.mp h with h | h
        · exact Or.inl h
        · exact Or.inr (List.mem_cons_of_mem _ h)
      · rcases List.mem_cons.mp h with h | h
        · exact Or.inr (h ▸ List.mem_cons_self)
        · rcases mem_putMember h with h | h
          · exact Or.inl h
          · exact Or.inr (List.mem_cons_of_mem _ h)

theorem keysOrdered_putMember (key : String) (value : α) :
    ∀ {members : List (String × α)}, KeysOrdered members →
      KeysOrdered (putMember key value members)
  | [], _ => List.pairwise_singleton _ _
  | (k, v) :: rest, h => by
    obtain ⟨hk, hrest⟩ := List.pairwise_cons.mp h
    unfold putMember
    split
    · next hlt =>
      refine List.pairwise_cons.mpr ⟨fun m hm => ?_, h⟩
      rcases List.mem_cons.mp hm with rfl | hm
      · exact hlt
      · exact lt_trans hlt (hk m hm)
    · next hge =>
      split
      · next heq =>
        subst heq
        exact List.pairwise_cons.mpr ⟨hk, hrest⟩
      · next hne =>
        refine List.pairwise_cons.mpr ⟨fun m hm => ?_, keysOrdered_putMember key value hrest⟩
        rcases mem_putMember hm with rfl | hm
        · exact lt_of_le_of_ne (not_lt.mp hge) (Ne.symm hne)
        · exact hk m hm

/-- A member with a greater key goes to the end. -/
theorem putMember_of_forall_lt {key : String} (value : α) :
    ∀ {members : List (String × α)}, (∀ m ∈ members, m.1 < key) →
      putMember key value members = members ++ [(key, value)]
  | [], _ => rfl
  | (k, v) :: rest, h => by
    have hk : k < key := h (k, v) List.mem_cons_self
    rw [putMember, if_neg (lt_asymm hk), if_neg (ne_of_gt hk),
      putMember_of_forall_lt value fun m hm => h m (List.mem_cons_of_mem _ hm)]
    rfl

theorem lookup_cons_self (key : String) (value : α) (members : List (String × α)) :
    ((key, value) :: members).lookup key = some value := by
  simp

theorem lookup_cons_of_ne {key name : String} (h : key ≠ name) (value : α)
    (members : List (String × α)) :
    ((key, value) :: members).lookup name = members.lookup name := by
  rw [List.lookup_cons, beq_false_of_ne (Ne.symm h)]

theorem lookup_putMember_self (key : String) (value : α) :
    ∀ members : List (String × α), (putMember key value members).lookup key = some value
  | [] => lookup_cons_self key value []
  | (k, v) :: rest => by
    unfold putMember
    split
    · exact lookup_cons_self key value _
    · split
      · exact lookup_cons_self key value _
      · next hne =>
        rw [lookup_cons_of_ne (Ne.symm hne)]
        exact lookup_putMember_self key value rest

theorem lookup_putMember_of_ne {key name : String} (h : key ≠ name) (value : α) :
    ∀ members : List (String × α), (putMember key value members).lookup name = members.lookup name
  | [] => lookup_cons_of_ne h value []
  | (k, v) :: rest => by
    unfold putMember
    split
    · exact lookup_cons_of_ne h value _
    · split
      · next heq =>
        subst heq
        rw [lookup_cons_of_ne h, lookup_cons_of_ne h]
      · by_cases hk : k = name
        · subst hk
          rw [lookup_cons_self, lookup_cons_self]
        · rw [lookup_cons_of_ne hk, lookup_cons_of_ne hk]
          exact lookup_putMember_of_ne h value rest

/-! ## Collecting members -/

theorem collectMembers_append (listed : List (String × α)) (m : String × α) :
    collectMembers (listed ++ [m]) = putMember m.1 m.2 (collectMembers listed) := by
  simp only [collectMembers, List.foldl_append, List.foldl_cons, List.foldl_nil]

theorem mem_collectMembers {listed : List (String × α)} {m : String × α}
    (h : m ∈ collectMembers listed) : m ∈ listed := by
  induction listed using List.reverseRecOn with
  | nil => exact h
  | append_singleton listed n ih =>
    rw [collectMembers_append] at h
    rcases mem_putMember h with rfl | h
    · simp
    · exact List.mem_append_left _ (ih h)

theorem keysOrdered_collectMembers (listed : List (String × α)) :
    KeysOrdered (collectMembers listed) := by
  induction listed using List.reverseRecOn with
  | nil => exact List.Pairwise.nil
  | append_singleton listed n ih =>
    rw [collectMembers_append]
    exact keysOrdered_putMember _ _ ih

/-- Members in order stay as they are. -/
theorem collectMembers_of_keysOrdered {members : List (String × α)} (h : KeysOrdered members) :
    collectMembers members = members := by
  induction members using List.reverseRecOn with
  | nil => rfl
  | append_singleton members m ih =>
    -- the last member has the greatest key, so it is put behind all the others
    obtain ⟨hmembers, -, hm⟩ := List.pairwise_append.mp h
    rw [collectMembers_append, ih hmembers,
      putMember_of_forall_lt m.2 fun n hn => hm n hn m (List.mem_singleton_self m)]

/-- **The value of a key is the one that was listed last.** -/
theorem lookup_collectMembers (listed : List (String × α)) (name : String) :
    (collectMembers listed).lookup name = listed.reverse.lookup name := by
  induction listed using List.reverseRecOn with
  | nil => rfl
  | append_singleton listed m ih =>
    obtain ⟨key, value⟩ := m
    rw [collectMembers_append, List.reverse_append]
    by_cases hkey : key = name
    · subst hkey
      exact (lookup_putMember_self key value _).trans (lookup_cons_self key value _).symm
    · exact (lookup_putMember_of_ne hkey value _).trans
        (ih.trans (lookup_cons_of_ne hkey value _).symm)

theorem member?_eq_lookup (name : String) (members : List (String × Value)) :
    Value.member? name members = members.lookup name := by
  induction members with
  | nil => rfl
  | cons m members ih =>
    obtain ⟨key, value⟩ := m
    unfold Value.member?
    split
    · next heq =>
      subst heq
      exact (lookup_cons_self key value members).symm
    · next hne =>
      rw [lookup_cons_of_ne hne]
      exact ih

theorem member?_collectMembers (name : String) (listed : List (String × Value)) :
    Value.member? name (collectMembers listed) = listed.reverse.lookup name := by
  rw [member?_eq_lookup, lookup_collectMembers]

/-! ## Members in order -/

theorem lookup_eq_none_of_forall_lt {name : String} {members : List (String × α)}
    (h : ∀ m ∈ members, name < m.1) : members.lookup name = none := by
  rw [List.lookup_eq_none_iff]
  intro m hm
  exact bne_iff_ne.mpr (ne_of_lt (h m hm))

theorem lookup_of_mem {m : String × α} :
    ∀ {members : List (String × α)}, KeysOrdered members → m ∈ members →
      members.lookup m.1 = some m.2
  | [], _, hm => by cases hm
  | n :: members, h, hm => by
    obtain ⟨hleast, hrest⟩ := List.pairwise_cons.mp h
    rcases List.mem_cons.mp hm with rfl | hm
    · exact lookup_cons_self m.1 m.2 members
    · exact (lookup_cons_of_ne (ne_of_lt (hleast m hm)) n.2 members).trans (lookup_of_mem hrest hm)

/-- Members in order begin with the least key that has a value. -/
theorem not_lt_of_lookup {key : String} {value : α} {members : List (String × α)}
    (h : KeysOrdered ((key, value) :: members)) (name : String)
    (hname : ((key, value) :: members).lookup name ≠ none) : ¬ name < key := by
  intro hlt
  refine hname (lookup_eq_none_of_forall_lt fun m hm => ?_)
  rcases List.mem_cons.mp hm with rfl | hm
  · exact hlt
  · exact lt_trans hlt ((List.pairwise_cons.mp h).1 m hm)

/-- **Members in order are the same if every key has the same value in both.** -/
theorem KeysOrdered.ext : ∀ {members others : List (String × α)}, KeysOrdered members →
    KeysOrdered others → (∀ name, members.lookup name = others.lookup name) → members = others
  | [], [], _, _, _ => rfl
  | [], (key, value) :: others, _, _, h => by
    have hkey := h key
    rw [lookup_cons_self] at hkey
    cases hkey
  | (key, value) :: members, [], _, _, h => by
    have hkey := h key
    rw [lookup_cons_self] at hkey
    cases hkey
  | (key, value) :: members, (key', value') :: others, hmembers, hothers, h => by
    have hkeys : key = key' := by
      refine le_antisymm (not_lt.mp (not_lt_of_lookup hmembers key' ?_))
        (not_lt.mp (not_lt_of_lookup hothers key ?_))
      · rw [h, lookup_cons_self]
        exact Option.some_ne_none _
      · rw [← h, lookup_cons_self]
        exact Option.some_ne_none _
    subst hkeys
    have hvalues := h key
    rw [lookup_cons_self, lookup_cons_self] at hvalues
    cases hvalues
    obtain ⟨hleast, hrest⟩ := List.pairwise_cons.mp hmembers
    obtain ⟨hleast', hrest'⟩ := List.pairwise_cons.mp hothers
    rw [KeysOrdered.ext hrest hrest' fun name => ?_]
    by_cases hname : key = name
    · subst hname
      rw [lookup_eq_none_of_forall_lt hleast, lookup_eq_none_of_forall_lt hleast']
    · rw [← lookup_cons_of_ne hname value members, h, lookup_cons_of_ne hname]

/-! ## Reading an object -/

/-- Reads an object as all the members that its text lists, in their order. -/
def listedReader : Reader (List (String × Value)) :=
  beginning .map '\x7b' (items nextKey (member string fun _ => valueReader (maxDepth - 1)) true)

section mapValue

variable {β : Type} {f : α → β} {p : Reader β} {q : Reader α}

/-- A reader that replaces the value of another one does so behind blanks too. -/
theorem padded_eq_mapValue (h : ∀ s, p s = mapValue f (q s)) (s : Input) :
    Reader.padded p s = mapValue f (Reader.padded q s) := by
  unfold Reader.padded
  rw [h]
  cases q (skipBlanks s).1 <;> rfl

theorem afterFirst_eq_mapValue (h : ∀ s, p s = mapValue f (q s)) (s : Input) :
    afterFirst p s = mapValue f (afterFirst q s) := by
  cases s with
  | nil => rfl
  | cons c r =>
    unfold afterFirst
    dsimp only
    rw [h]
    cases q r <;> rfl

theorem beginning_eq_mapValue (h : ∀ s, p s = mapValue f (q s)) (wanted : Wanted) (first : Char)
    (s : Input) : beginning wanted first p s = mapValue f (beginning wanted first q s) := by
  refine padded_eq_mapValue (fun s => ?_) s
  cases s with
  | nil => rfl
  | cons c r =>
    dsimp only
    split
    · exact afterFirst_eq_mapValue h _
    · rfl

theorem decode_eq_map (h : ∀ s, p s = mapValue f (q s)) (text : String) :
    decode p text = (decode q text).map f := by
  unfold decode whole
  rw [h]
  cases q (.ofChars text.toList) with
  | error e => rfl
  | ok result =>
    obtain ⟨a, r⟩ := result
    simp only [mapValue]
    cases (skipBlanks r.1).1 <;> rfl

end mapValue

/-- **An object is read as the members that its text lists, collected.** -/
theorem decode_objectReader (text : String) :
    decode objectReader text = (decode listedReader text).map collectMembers :=
  decode_eq_map (beginning_eq_mapValue (fun _ => rfl) _ _) text

end SecretClient.Json
