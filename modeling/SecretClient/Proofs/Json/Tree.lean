import SecretClient.Proofs.Json.Fits
import SecretClient.Proofs.Json.Skip

/-!
# The tree of a text

What a text lists, before anything is made of it: numbers are literals, strings may be no text, and a
member stands there as often as it is listed. `tree` reads the tree of any text that `skipValue`
passes, to any depth.

* `reads_tree` : a tree is read with the trees of its elements and members
* `reads_stringTree_some_iff`, `reads_skippedTail_iff` : the strings that are texts, and those that
  are passed
-/

namespace SecretClient.Json

variable {α : Type}

/-- What a text lists. A string is `none` if it can be passed and yet is no text. -/
inductive Tree where
  | null
  | bool (b : Bool)
  | number (l : Literal)
  | string (s : Option String)
  | array (elements : List Tree)
  | object (members : List (Option String × Tree))

/-! ## Reading trees -/

/-- Reads a string behind its opening quote, as a text if it is one. -/
def stringTree : Reader (Option String) := fun s =>
  match stringTail s with
  | .ok (a, r) => .ok (some a, r)
  | .error _ => mapValue (fun _ => none) (skippedTail s)

/-- Reads the elements of a list behind its opening bracket. -/
def elementTrees (element : Reader Tree) : Reader (List Tree) := items nextElement element true

/-- Reads the members of an object behind its opening brace. -/
def memberTrees (value : Reader Tree) : Reader (List (Option String × Tree)) :=
  items nextKey (member (afterFirst stringTree) fun _ => value) true

/-- The parts of a tree, given the readers of what stands behind an opening bracket and behind an
opening brace. -/
def treeParts (elements : Reader (List Tree)) (members : Reader (List (Option String × Tree))) :
    Parts Tree :=
  { null := .null
    bool := .bool
    number := fun s => mapValue .number (literal s)
    string := fun s => mapValue .string (stringTree s)
    array := fun s => mapValue .array (elements s)
    object := fun s => mapValue .object (members s) }

/-- Reads a tree in which containers nest at most so deep. -/
def treeReader : Nat → Reader Tree
  | 0 => (treeParts (tooDeep '[') (tooDeep '\x7b')).reader
  | d + 1 => (treeParts (elementTrees (treeReader d)) (memberTrees (treeReader d))).reader

/-- Reads a tree, however deep its containers nest. -/
def tree : Reader Tree := fun s => treeReader s.length s

/-! ## What is left is shorter -/

theorem Reads.length_lt {p : Reader α} {s t : Input} {a : α} (h : Reads p s a t) :
    t.length < s.length := by
  obtain ⟨r, -, rfl⟩ := h.exists_ok
  exact r.2

theorem Begins.length_le {next : Bool → (s : Input) → Except Fault (Next s)} {first : Bool}
    {s b : Input} (h : Begins next first s b) : b.length ≤ s.length := by
  unfold Begins at h
  cases hnext : next first s with
  | error e => rw [hnext] at h; cases h
  | ok found =>
    rw [hnext] at h
    cases found with
    | closed r => cases h
    | begins start =>
      cases h
      exact start.2

theorem length_lt_of_dropWhile {s r : Input} {c : Option Char}
    (h : s.dropWhile isBlank = c :: r) : r.length < s.length := by
  have hle := length_dropWhile_le isBlank s
  rw [h, List.length_cons] at hle
  omega

/-! ## Readers that agree on shorter inputs -/

/-- Up to a length, what the first reader reads the second reads too. -/
def ReadsWithin (n : Nat) (p q : Reader α) : Prop :=
  ∀ s a t, s.length ≤ n → Reads p s a t → Reads q s a t

theorem ReadsWithin.items {n : Nat} {p q : Reader α} (h : ReadsWithin n p q)
    (next : Bool → (s : Input) → Except Fault (Next s)) (first : Bool) :
    ReadsWithin n (items next p first) (items next q first) := by
  intro s as t hs hread
  induction as generalizing first s with
  | nil =>
    rcases reads_items.mp hread with ⟨-, hcloses⟩ | ⟨a, rest, b, r, heq, -⟩
    · exact reads_items.mpr (Or.inl ⟨rfl, hcloses⟩)
    · cases heq
  | cons a as ih =>
    rcases reads_items.mp hread with ⟨heq, -⟩ | ⟨a, rest, b, r, heq, hbegins, ha, hrest⟩
    · cases heq
    · cases heq
      have hb := hbegins.length_le
      have hr := ha.length_lt
      exact reads_items.mpr (Or.inr ⟨_, _, b, r, rfl, hbegins, h b _ r (by omega) ha,
        ih false r (by omega) hrest⟩)

theorem ReadsWithin.member {κ : Type} {n : Nat} {p q : Reader α} (h : ReadsWithin n p q)
    (key : Reader κ) :
    ReadsWithin n (member key fun _ => p) (member key fun _ => q) := by
  intro s m t hs hread
  obtain ⟨r, u, hkey, hcolon, hvalue⟩ := reads_member.mp hread
  have hr := hkey.length_lt
  have hu := length_lt_of_dropWhile hcolon
  exact reads_member.mpr ⟨r, u, hkey, hcolon, h u _ t (by omega) hvalue⟩

/-- Trees are read alike where their elements and members are. -/
theorem ReadsWithin.treeParts {n : Nat} {elements elements' : Reader (List Tree)}
    {members members' : Reader (List (Option String × Tree))}
    (helements : ReadsWithin n elements elements') (hmembers : ReadsWithin n members members') :
    ReadsWithin (n + 1) (treeParts elements members).reader (treeParts elements' members').reader := by
  intro s o t hs hread
  have hle := length_dropWhile_le isBlank s
  rw [reads_parts] at hread ⊢
  generalize s.dropWhile isBlank = s' at hread hle
  cases hread with
  | null => exact .null
  | true => exact .true
  | false => exact .false
  | string h => exact .string h
  | number hc h => exact .number hc h
  | array h =>
    obtain ⟨os, hos, rfl⟩ := reads_mapValue.mp h
    rw [List.length_cons] at hle
    exact .array (reads_mapValue.mpr ⟨os, helements _ _ _ (by omega) hos, rfl⟩)
  | object h =>
    obtain ⟨ms, hms, rfl⟩ := reads_mapValue.mp h
    rw [List.length_cons] at hle
    exact .object (reads_mapValue.mpr ⟨ms, hmembers _ _ _ (by omega) hms, rfl⟩)

/-! ## The depth does not matter -/

/-- Nothing is read where nothing stands. -/
theorem not_reads_nil {p : Reader α} {t : Input} {a : α} : ¬ Reads p [] a t := by
  intro h
  exact absurd h.length_lt (Nat.not_lt_zero _)

/-- A depth as great as the input is long is enough. -/
theorem readsWithin_treeReader : ∀ d n : Nat, ReadsWithin n (treeReader d) (treeReader n)
  | d, 0 => by
    intro s o t hs hread
    rw [List.length_eq_zero_iff.mp (Nat.le_zero.mp hs)] at hread
    exact absurd hread not_reads_nil
  | 0, n + 1 =>
    .treeParts (fun _ _ _ _ h => absurd h not_reads_tooDeep) fun _ _ _ _ h =>
      absurd h not_reads_tooDeep
  | d + 1, n + 1 =>
    .treeParts ((readsWithin_treeReader d n).items nextElement true)
      (((readsWithin_treeReader d n).member _).items nextKey true)

theorem readsWithin_tree (d n : Nat) : ReadsWithin n (treeReader d) tree :=
  fun s o t _ h => readsWithin_treeReader d s.length s o t (Nat.le_refl _) h

theorem tree_readsWithin (n : Nat) : ReadsWithin n tree (treeReader n) :=
  fun s o t hs h => readsWithin_treeReader s.length n s o t hs h

/-- **A tree is read with the trees of its elements and members.** -/
theorem reads_tree {s t : Input} {o : Tree} :
    Reads tree s o t ↔ Reads (treeParts (elementTrees tree) (memberTrees tree)).reader s o t := by
  cases s with
  | nil => exact ⟨fun h => absurd h not_reads_nil, fun h => absurd h not_reads_nil⟩
  | cons c r =>
    -- one level of the tree is its own, and what is inside is shorter
    change Reads (treeReader (r.length + 1)) (c :: r) o t ↔ _
    constructor
    · refine ReadsWithin.treeParts (n := r.length) ?_ ?_ _ _ _ (Nat.le_refl _)
      · exact (readsWithin_tree r.length r.length).items nextElement true
      · exact ((readsWithin_tree r.length r.length).member _).items nextKey true
    · refine ReadsWithin.treeParts (n := r.length) ?_ ?_ _ _ _ (Nat.le_refl _)
      · exact (tree_readsWithin r.length).items nextElement true
      · exact ((tree_readsWithin r.length).member _).items nextKey true

/-! ## Strings -/

/-- The strings of a tree that are texts. -/
theorem reads_stringTree_some_iff {s t : Input} {a : String} :
    Reads stringTree s (some a) t ↔ Reads stringTail s a t := by
  unfold Reads stringTree
  cases htext : stringTail s with
  | ok result => simp [outcome]
  | error e =>
    constructor
    · intro h
      obtain ⟨-, -, hnone⟩ := reads_mapValue.mp h
      cases hnone
    · intro h
      cases h

/-- **A tree has a string wherever one is passed.** -/
theorem reads_skippedTail_iff {s t : Input} :
    Reads skippedTail s () t ↔ ∃ o, Reads stringTree s o t := by
  constructor
  · intro h
    cases htext : stringTail s with
    | ok result =>
      obtain ⟨a, r⟩ := result
      have hread := reads_of_ok htext
      obtain ⟨-, rfl⟩ := h.unique (reads_skippedTail_of_stringTail hread)
      exact ⟨some a, reads_stringTree_some_iff.mpr hread⟩
    | error e =>
      refine ⟨none, ?_⟩
      unfold Reads stringTree
      rw [htext]
      exact reads_mapValue.mpr ⟨(), h, rfl⟩
  · rintro ⟨_ | a, h⟩
    · unfold Reads stringTree at h
      cases htext : stringTail s with
      | ok result => rw [htext] at h; cases h
      | error e =>
        rw [htext] at h
        obtain ⟨_, hskipped, -⟩ := reads_mapValue.mp h
        exact hskipped
    · exact reads_skippedTail_of_stringTail (reads_stringTree_some_iff.mp h)

end SecretClient.Json
