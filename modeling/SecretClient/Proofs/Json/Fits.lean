import SecretClient.Proofs.Json.Member
import SecretClient.Proofs.Json.Number

/-!
# Which values are read

`Value.Fits d v` says what reading to the depth `d` gives: containers nest at most `d` deep, integers
are between their bounds, and the members of objects are in the order of their keys.

* `fits_of_reads` : whatever is read fits
* `fits_of_listed` : so does every member that an object lists, one level less deep
-/

namespace SecretClient.Json

/-- A floating point number occurs in the value. -/
inductive Value.HasFloat : Value → Prop
  | float (x : Float) : HasFloat (.number (.float x))
  | element {v : Value} {items : List Value} : v ∈ items → HasFloat v → HasFloat (.array items)
  | member {m : String × Value} {members : List (String × Value)} : m ∈ members → HasFloat m.2 →
      HasFloat (.object members)

/-- The value is one that reading to the given depth can give. -/
inductive Value.Fits : Nat → Value → Prop
  | null {d : Nat} : Fits d .null
  | bool {d : Nat} (b : Bool) : Fits d (.bool b)
  | integer {d : Nat} {n : Int} : minInteger ≤ n → n ≤ maxInteger → Fits d (.number (.integer n))
  | float {d : Nat} (x : Float) : Fits d (.number (.float x))
  | string {d : Nat} (s : String) : Fits d (.string s)
  | array {d : Nat} {items : List Value} : (∀ v ∈ items, Fits d v) → Fits (d + 1) (.array items)
  | object {d : Nat} {members : List (String × Value)} : KeysOrdered members →
      (∀ m ∈ members, Fits d m.2) → Fits (d + 1) (.object members)

/-- A value that fits a depth fits every greater one. -/
theorem Value.Fits.mono {d : Nat} {v : Value} (h : v.Fits d) : ∀ {e : Nat}, d ≤ e → v.Fits e := by
  induction h with
  | null => exact fun _ => .null
  | bool b => exact fun _ => .bool b
  | integer hmin hmax => exact fun _ => .integer hmin hmax
  | float x => exact fun _ => .float x
  | string s => exact fun _ => .string s
  | array hitems ih =>
    intro e he
    cases e with
    | zero => exact absurd he (by omega)
    | succ e => exact .array fun v hv => ih v hv (by omega)
  | object hordered hmembers ih =>
    intro e he
    cases e with
    | zero => exact absurd he (by omega)
    | succ e => exact .object hordered fun m hm => ih m hm (by omega)

/-! ## What is read fits -/

/-- Nothing is read that would be too deep. -/
theorem not_reads_tooDeep {α : Type} {bracket : Char} {s t : Input} {a : α} :
    ¬ Reads (tooDeep bracket) s a t := by
  intro h
  cases h

/-- Scalars fit every depth, so a value fits if its containers do. -/
theorem fits_of_readsFrom {d : Nat} {array object : Reader Value} {s t : Input} {v : Value}
    (harray : ∀ {s v t}, Reads array s v t → v.Fits d)
    (hobject : ∀ {s v t}, Reads object s v t → v.Fits d)
    (h : (valueParts array object).ReadsFrom s v t) : v.Fits d := by
  cases h with
  | null => exact .null
  | true => exact .bool Bool.true
  | false => exact .bool Bool.false
  | string h =>
    obtain ⟨a, -, rfl⟩ := reads_mapValue.mp h
    exact .string a
  | array h => exact harray h
  | object h => exact hobject h
  | number hc h =>
    obtain ⟨n, hn, rfl⟩ := reads_mapValue.mp h
    cases n with
    | integer n => exact .integer (integer_bounds hn).1 (integer_bounds hn).2
    | float x => exact .float x

/-- The value of each listed member fits if what reads it gives only such values. -/
theorem fits_of_mem_listed {d e : Nat} (hvalue : ∀ {s v t}, Reads (valueReader d) s v t → v.Fits e)
    {first : Bool} {s t : Input} {listed : List (String × Value)}
    (h : Reads (items nextKey (member string fun _ => valueReader d) first) s listed t) :
    ∀ m ∈ listed, m.2.Fits e := by
  refine forall_of_reads_items (fun s m t hm => ?_) h
  obtain ⟨r, u, -, -, hread⟩ := reads_member.mp hm
  exact hvalue hread

/-- **Whatever is read fits.** -/
theorem fits_of_reads : ∀ (d : Nat) {s t : Input} {v : Value}, Reads (valueReader d) s v t → v.Fits d
  | 0, _, _, _, h =>
    fits_of_readsFrom (fun h => absurd h not_reads_tooDeep) (fun h => absurd h not_reads_tooDeep)
      (reads_parts.mp h)
  | d + 1, _, _, _, h => by
    refine fits_of_readsFrom (fun harray => ?_) (fun hobject => ?_) (reads_parts.mp h)
    · obtain ⟨elements, hread, rfl⟩ := reads_mapValue.mp harray
      exact .array (forall_of_reads_items (fun s v t => fits_of_reads d) hread)
    · obtain ⟨listed, hread, rfl⟩ := reads_mapValue.mp hobject
      exact .object (keysOrdered_collectMembers listed) fun m hm =>
        fits_of_mem_listed (fits_of_reads d) hread m (mem_collectMembers hm)

/-! ## Members of a whole text -/

theorem reads_beginning {α : Type} {wanted : Wanted} {first : Char} {p : Reader α} {s t : Input}
    {a : α} : Reads (beginning wanted first p) s a t ↔
      ∃ r, s.dropWhile isBlank = some first :: r ∧ Reads p r a t := by
  unfold beginning
  rw [reads_padded]
  cases s.dropWhile isBlank with
  | nil => simp [Reads, outcome]
  | cons c r =>
    by_cases hc : c = some first
    · subst hc
      unfold Reads
      dsimp only
      rw [if_pos rfl, outcome_afterFirst]
      simp
    · simp [Reads, outcome, hc]

theorem decode_ok_iff {α : Type} {p : Reader α} {text : String} {a : α} :
    decode p text = .ok a ↔
      ∃ t, Reads p (Input.ofChars text.toList) a t ∧ t.dropWhile isBlank = [] := by
  unfold decode
  rw [← whole_ok_iff]
  cases whole p (Input.ofChars text.toList) <;> simp [Except.mapError]

/-- **The values of the members that an object lists fit one level less deep.** -/
theorem fits_of_listed {text : String} {listed : List (String × Value)}
    (h : decode listedReader text = .ok listed) : ∀ m ∈ listed, m.2.Fits (maxDepth - 1) := by
  obtain ⟨t, hread, -⟩ := decode_ok_iff.mp h
  obtain ⟨r, -, hlisted⟩ := reads_beginning.mp hread
  exact fits_of_mem_listed (fits_of_reads _) hlisted

end SecretClient.Json
