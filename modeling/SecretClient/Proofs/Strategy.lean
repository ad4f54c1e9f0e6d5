import SecretClient.Proofs.Text.Blank
import SecretClient.Proofs.Text.Utf8
import SecretClient.Strategy

/-!
# Which strategy the environment gives

What the environment gives, said without the order in which it is asked: which value a setting has
(`Environ.Resolves`), which mount (`Environ.Mounts`) and which token (`Environ.GivesToken`).

* `select_strategy` : which strategy is selected for which environment and files
-/

namespace SecretClient

open Blank (Bare Trimmed)

/-! ## Files -/

/-- The file at a path is a text, and `value` is what it holds between blanks: not nothing. -/
inductive FileSystem.Holds (files : FileSystem) (path value : String) : Prop
  | intro {text : List Char} : files path = .ok (Utf8.encode text) →
      Trimmed Blank.isBlank text value.toList → value ≠ "" → Holds files path value

theorem FileSystem.text_eq_ok_iff {files : FileSystem} {path : String} {text : List Char} :
    files.text path = .ok text ↔ files path = .ok (Utf8.encode text) := by
  unfold FileSystem.text
  cases files path with
  | error e => simp
  | ok bytes =>
    rw [Except.ok.injEq, ← Utf8.chars?_eq_some_iff]
    dsimp only
    cases Utf8.chars? bytes <;> simp

theorem toList_eq_trim_iff {text : List Char} {value : String} :
    Trimmed Blank.isBlank text value.toList ↔ value = String.ofList (Blank.trim text) := by
  rw [← Blank.trimWhile_eq_iff, ← String.toList_inj, String.toList_ofList, eq_comm]
  rfl

theorem FileSystem.trimmed_eq_some_iff {files : FileSystem} {path value : String} :
    files.trimmed path = .ok (some value) ↔ files.Holds path value := by
  have hempty : ∀ text : List Char, (String.ofList text = "") ↔ text = [] := by
    intro text
    rw [← String.toList_inj, String.toList_ofList]
    rfl
  unfold FileSystem.trimmed
  constructor
  · intro h
    cases htext : files.text path with
    | error e => rw [htext] at h; cases h
    | ok text =>
      rw [htext] at h
      simp only [Except.map, Except.ok.injEq] at h
      split at h
      · cases h
      · next hne =>
        cases h
        refine .intro (text_eq_ok_iff.mp htext) (toList_eq_trim_iff.mpr rfl) ?_
        rw [Ne, hempty, ← List.isEmpty_iff]
        exact hne
  · rintro ⟨htext, htrimmed, hne⟩
    rw [toList_eq_trim_iff] at htrimmed
    subst htrimmed
    rw [Ne, hempty, ← List.isEmpty_iff] at hne
    rw [text_eq_ok_iff.mpr htext]
    simp only [Except.map]
    rw [if_neg hne]

/-- What a file holds has no blanks at its ends. -/
theorem FileSystem.Holds.bare {files : FileSystem} {path value : String}
    (h : files.Holds path value) : Bare Blank.isBlank value.toList := by
  obtain ⟨-, htrimmed, -⟩ := h
  generalize value.toList = core at htrimmed
  obtain ⟨-, -, hbare⟩ := htrimmed
  exact hbare

/-! ## Settings -/

namespace Environ

variable {env : Environ} {files : FileSystem} {name value : String}

/-- The variable is not set, or to nothing. -/
def Lacks (env : Environ) (name : String) : Prop := ∀ value, env name = some value → value = ""

/-- A setting has a value: that of the variable, as it is, or else what the file holds that the
variable with `_FILE` behind the name names. -/
inductive Resolves (env : Environ) (files : FileSystem) (name : String) : String → Prop
  | direct {value : String} : env name = some value → value ≠ "" → Resolves env files name value
  | file {path value : String} : env.Lacks name → env (name ++ "_FILE") = some path →
      files.Holds path value → Resolves env files name value

/-- The mount of a login: that of the variable, without the slashes at its ends, or else `app-id`. -/
inductive Mounts (env : Environ) : String → Prop
  | given {text mount : String} : env "VAULT_AUTH_APP_ID_MOUNT" = some text → text ≠ "" →
      Trimmed (· == '/') text.toList mount.toList → Mounts env mount
  | default : env.Lacks "VAULT_AUTH_APP_ID_MOUNT" → Mounts env "app-id"

/-- The token that is given: the setting, or else what the file `.vault-token` of the user holds. -/
inductive GivesToken (env : Environ) (files : FileSystem) : String → Prop
  | setting {token : String} : env.Resolves files "VAULT_TOKEN" token → GivesToken env files token
  | home {directory token : String} : (¬ ∃ token, env.Resolves files "VAULT_TOKEN" token) →
      env "HOME" = some directory → files.Holds (joinPath directory ".vault-token") token →
      GivesToken env files token

theorem nonEmpty?_eq_some_iff :
    env.nonEmpty? name = some value ↔ env name = some value ∧ value ≠ "" := by
  unfold nonEmpty?
  rw [Option.filter_eq_some_iff]
  simp

theorem nonEmpty?_eq_none_iff : env.nonEmpty? name = none ↔ env.Lacks name := by
  unfold nonEmpty? Lacks
  rw [Option.filter_eq_none_iff]
  simp

theorem fileSetting_value :
    (env.fileSetting files name).value = some value ↔
      ∃ path, env name = some path ∧ files.Holds path value := by
  unfold fileSetting
  cases env name with
  | none => simp
  | some path =>
    simp only [Option.some.injEq, exists_eq_left', ← FileSystem.trimmed_eq_some_iff]
    cases files.trimmed path with
    | ok t => simp
    | error e => simp

/-- **A setting has the value that it resolves to.** -/
theorem setting_value_iff :
    (env.setting files name).value = some value ↔ env.Resolves files name value := by
  unfold setting
  cases hdirect : env.nonEmpty? name with
  | some direct =>
    obtain ⟨hset, hne⟩ := nonEmpty?_eq_some_iff.mp hdirect
    rw [Logged.value_pure, Option.some.injEq]
    constructor
    · rintro rfl
      exact .direct hset hne
    · intro h
      cases h with
      | direct h => exact Option.some.inj (hset.symm.trans h)
      | file hlacks => exact absurd (hlacks direct hset) hne
  | none =>
    have hlacks := nonEmpty?_eq_none_iff.mp hdirect
    dsimp only
    rw [fileSetting_value]
    constructor
    · rintro ⟨path, hpath, hfile⟩
      exact .file hlacks hpath hfile
    · intro h
      cases h with
      | direct h hne => exact absurd (hlacks value h) hne
      | file _ hpath hfile => exact ⟨_, hpath, hfile⟩

theorem setting_value_eq_none_iff :
    (env.setting files name).value = none ↔ ¬ ∃ value, env.Resolves files name value := by
  simp only [← setting_value_iff, Option.eq_none_iff_forall_ne_some, not_exists, ne_eq]

/-- No setting is empty, and one from a file has no blanks at its ends. -/
theorem Resolves.solid (h : env.Resolves files name value) :
    value ≠ "" ∧ (env name = some value ∨ Bare Blank.isBlank value.toList) := by
  cases h with
  | direct hset hne => exact ⟨hne, Or.inl hset⟩
  | file _ _ hfile =>
    have hbare := hfile.bare
    obtain ⟨-, -, hne⟩ := hfile
    exact ⟨hne, Or.inr hbare⟩

end Environ

/-! ## Strategies -/

variable {env : Environ} {files : FileSystem}

/-- Both credentials of a login are given. -/
def Environ.GivesLogin (env : Environ) (files : FileSystem) : Prop :=
  (∃ appId, env.Resolves files "VAULT_APP_ID" appId) ∧
    ∃ userId, env.Resolves files "VAULT_USER_ID" userId

theorem Environ.mounts_iff {mount : String} :
    (match env.nonEmpty? "VAULT_AUTH_APP_ID_MOUNT" with
      | none => "app-id"
      | some text => String.ofList (Blank.trimWhile (· == '/') text.toList)) = mount ↔
    env.Mounts mount := by
  cases hmount : env.nonEmpty? "VAULT_AUTH_APP_ID_MOUNT" with
  | none =>
    have hlacks := nonEmpty?_eq_none_iff.mp hmount
    constructor
    · rintro rfl
      exact .default hlacks
    · intro h
      cases h with
      | given hset hne => exact absurd (hlacks _ hset) hne
      | default => rfl
  | some text =>
    obtain ⟨hset, hne⟩ := nonEmpty?_eq_some_iff.mp hmount
    constructor
    · rintro rfl
      refine .given hset hne ?_
      rw [String.toList_ofList]
      exact Blank.trimmed_trimWhile _ _
    · intro h
      cases h with
      | given hset' hne' htrimmed =>
        cases hset.symm.trans hset'
        dsimp only
        rw [← htrimmed.eq_trimWhile, String.ofList_toList]
      | default hlacks => exact absurd (hlacks _ hset) hne

/-- **The login that the environment gives.** -/
theorem AppId.select_value_iff (a : AppId) :
    (AppId.select env files).value = some a ↔
      env.Resolves files "VAULT_APP_ID" a.appId ∧ env.Resolves files "VAULT_USER_ID" a.userId ∧
        env.Mounts a.mount := by
  rw [← Environ.setting_value_iff, ← Environ.setting_value_iff, ← Environ.mounts_iff]
  unfold AppId.select
  rw [Logged.value_bind]
  cases (env.setting files "VAULT_APP_ID").value with
  | none => simp
  | some appId =>
    dsimp only
    rw [Logged.value_bind]
    cases (env.setting files "VAULT_USER_ID").value with
    | none => simp
    | some userId =>
      dsimp only
      cases env.nonEmpty? "VAULT_AUTH_APP_ID_MOUNT" with
      | none => cases a; simp
      | some mount => cases a; simp

theorem AppId.select_value_eq_none_iff :
    (AppId.select env files).value = none ↔ ¬ env.GivesLogin files := by
  constructor
  · rintro hnone ⟨⟨appId, happId⟩, userId, huserId⟩
    obtain ⟨mount, hmount⟩ : ∃ mount, env.Mounts mount := ⟨_, Environ.mounts_iff.mp rfl⟩
    rw [(AppId.select_value_iff ⟨appId, userId, mount⟩).mpr ⟨happId, huserId, hmount⟩] at hnone
    cases hnone
  · intro h
    cases hselect : (AppId.select env files).value with
    | none => rfl
    | some a =>
      obtain ⟨happId, huserId, -⟩ := (AppId.select_value_iff a).mp hselect
      exact absurd ⟨⟨_, happId⟩, _, huserId⟩ h

/-- **The token that the environment gives.** -/
theorem StaticToken.select_value_iff (token : String) :
    (StaticToken.select env files).value = some token ↔ env.GivesToken files token := by
  have hfile : ∀ path, (StaticToken.ofFile files path).value = some token ↔
      files.Holds path token := by
    intro path
    unfold StaticToken.ofFile
    rw [← FileSystem.trimmed_eq_some_iff]
    cases files.trimmed path with
    | error e => simp
    | ok text => cases text <;> simp
  unfold StaticToken.select
  rw [Logged.value_bind]
  cases hsetting : (env.setting files "VAULT_TOKEN").value with
  | some given =>
    have hgiven := Environ.setting_value_iff.mp hsetting
    dsimp only
    rw [Logged.value_pure, Option.some.injEq]
    constructor
    · rintro rfl
      exact .setting hgiven
    · intro h
      cases h with
      | setting h =>
        rw [← Environ.setting_value_iff, hsetting] at h
        exact Option.some.inj h
      | home hnone => exact absurd ⟨given, hgiven⟩ hnone
  | none =>
    have hnone := Environ.setting_value_eq_none_iff.mp hsetting
    dsimp only
    constructor
    · intro h
      cases hhome : env "HOME" with
      | none => rw [hhome] at h; cases h
      | some directory =>
        rw [hhome] at h
        exact .home hnone hhome ((hfile _).mp h)
    · intro h
      cases h with
      | setting h => exact absurd ⟨token, h⟩ hnone
      | home _ hhome hholds =>
        rw [hhome]
        exact (hfile _).mpr hholds

theorem StaticToken.select_value_eq_none_iff :
    (StaticToken.select env files).value = none ↔ ¬ ∃ token, env.GivesToken files token := by
  simp only [← StaticToken.select_value_iff, Option.eq_none_iff_forall_ne_some, not_exists, ne_eq]

/-- No token is empty, and one from a file has no blanks at its ends. -/
theorem Environ.GivesToken.solid {token : String} (h : env.GivesToken files token) :
    token ≠ "" ∧ (env "VAULT_TOKEN" = some token ∨ Bare Blank.isBlank token.toList) := by
  cases h with
  | setting h => exact h.solid
  | home _ _ hfile =>
    have hbare := hfile.bare
    obtain ⟨-, -, hne⟩ := hfile
    exact ⟨hne, Or.inr hbare⟩

namespace Strategy

theorem select_value (env : Environ) (files : FileSystem) :
    (select env files).value =
      match (AppId.select env files).value, (StaticToken.select env files).value with
      | some a, _ => .ok (.appId a)
      | none, some t => .ok (.static t)
      | none, none => .error .strategyMissing := by
  unfold select
  rw [Logged.value_bind]
  cases (AppId.select env files).value with
  | some a => rfl
  | none =>
    dsimp only
    rw [Logged.value_bind]
    cases (StaticToken.select env files).value <;> rfl

theorem select_eq_appId_iff {a : AppId} :
    (select env files).value = .ok (.appId a) ↔ (AppId.select env files).value = some a := by
  rw [select_value]
  cases (AppId.select env files).value <;> cases (StaticToken.select env files).value <;> simp

end Strategy

end SecretClient
