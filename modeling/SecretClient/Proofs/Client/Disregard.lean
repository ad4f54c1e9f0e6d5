import SecretClient.Client.Builder
import SecretClient.Proofs.Strategy

/-!
# What building disregards

Building asks for its sources one after the other, and asks for no more of them than it needs. What it does
not ask for may be anything: two environments with their files that differ in nothing else
(`Environ.DiffersOnlyIn`) make the same client, or fail in the same way, and the same is told of both. So
nothing is told of a file that only such a source leads to.

* `setting_eq`, `AppId.select_eq`, `StaticToken.select_eq`, `select_eq` : what a source needs to be the same
* `warrants_select` : a file that is told of is one that a variable names
* `sources_disregarded` : what building disregards
-/

namespace SecretClient

/-! ## Logged values -/

namespace Logged

variable {α β : Type} {x : Logged α} {f g : α → Logged β} {P : Event → Prop}

/-- What follows a value depends on the value only. -/
theorem bind_eq_bind (h : f x.value = g x.value) : x >>= f = x >>= g :=
  congrArg (fun y : Logged β => (⟨y.value, x.events ++ y.events⟩ : Logged β)) h

theorem forall_events_bind (hx : ∀ e ∈ x.events, P e) (hf : ∀ a, ∀ e ∈ (f a).events, P e) :
    ∀ e ∈ (x >>= f).events, P e := by
  rw [events_bind, List.forall_mem_append]
  exact ⟨hx, hf x.value⟩

end Logged

/-! ## Sources -/

namespace Environ

/-- The settings that a variable gives, or the file that another one names. -/
def settingNames : List String := ["VAULT_APP_ID", "VAULT_USER_ID", "VAULT_TOKEN"]

/-- All variables that credentials come from. -/
def credentialVariables : List String :=
  ["VAULT_APP_ID", "VAULT_APP_ID_FILE", "VAULT_USER_ID", "VAULT_USER_ID_FILE",
    "VAULT_AUTH_APP_ID_MOUNT", "VAULT_TOKEN", "VAULT_TOKEN_FILE", "HOME"]

/-- A variable leads to a file: it names the file, or the directory of the user that holds it. -/
inductive LeadsTo (env : Environ) : String → String → Prop
  | named {name path : String} : name ∈ settingNames → env (name ++ "_FILE") = some path →
      LeadsTo env (name ++ "_FILE") path
  | home {directory : String} : env "HOME" = some directory →
      LeadsTo env "HOME" (joinPath directory ".vault-token")

/-- Two environments with their files differ only in some variables, and in files that no other variable
leads to. -/
structure DiffersOnlyIn (names : List String) (env env' : Environ) (files files' : FileSystem) :
    Prop where
  environ : ∀ name ∉ names, env' name = env name
  files : ∀ name ∉ names, ∀ path, env.LeadsTo name path → files' path = files path

variable {names : List String} {env env' : Environ} {files files' : FileSystem} {name : String}

/-- Where all credentials may differ, the files may be any. -/
theorem differsOnlyIn_credentialVariables
    (h : ∀ name ∉ credentialVariables, env' name = env name) (files files' : FileSystem) :
    DiffersOnlyIn credentialVariables env env' files files' where
  environ := h
  files := by
    intro name hname path hleads
    cases hleads with
    | named hsetting =>
      have hnamed : ∀ name ∈ settingNames, name ++ "_FILE" ∈ credentialVariables := by decide
      exact absurd (hnamed _ hsetting) hname
    | home => exact absurd (by decide) hname

/-! ## Settings -/

/-- **A setting is the same** if its variable is, and if the file is that is asked for without it. -/
theorem setting_eq (hname : name ∈ settingNames) (h : DiffersOnlyIn names env env' files files')
    (hvalue : name ∉ names) (hpath : env.Lacks name → name ++ "_FILE" ∉ names) :
    env'.setting files' name = env.setting files name := by
  have hdirect : env'.nonEmpty? name = env.nonEmpty? name := by
    rw [nonEmpty?, h.environ name hvalue, ← nonEmpty?]
  unfold setting
  rw [hdirect]
  cases hlacks : env.nonEmpty? name with
  | some value => rfl
  | none =>
    have hnamed := hpath (nonEmpty?_eq_none_iff.mp hlacks)
    dsimp only
    unfold fileSetting
    rw [h.environ _ hnamed]
    cases hfile : env (name ++ "_FILE") with
    | none => rfl
    | some path =>
      have hread := h.files _ hnamed path (.named hname hfile)
      dsimp only
      rw [FileSystem.trimmed, FileSystem.text, hread, ← FileSystem.text, ← FileSystem.trimmed]

/-- The environment without some variables. -/
def without (env : Environ) (names : List String) : Environ := fun name =>
  if name ∈ names then none else env name

/-- The event tells of no file but one that a variable names. -/
def Warrants (env : Environ) (e : Event) : Prop :=
  ∀ name path reason, e = .fileUnreadable name path reason → env name = some path

theorem warrants_setting (env : Environ) (files : FileSystem) (name : String) :
    ∀ e ∈ (env.setting files name).events, env.Warrants e := by
  unfold setting
  cases env.nonEmpty? name with
  | some value => exact List.forall_mem_nil _
  | none =>
    dsimp only
    unfold fileSetting
    cases hpath : env (name ++ "_FILE") with
    | none => exact List.forall_mem_nil _
    | some path =>
      dsimp only
      cases files.trimmed path with
      | ok text => exact List.forall_mem_nil _
      | error e =>
        have hwarrants : env.Warrants (.fileUnreadable (name ++ "_FILE") path e.message) := by
          rintro _ _ _ ⟨⟩
          exact hpath
        exact List.forall_mem_singleton.mpr hwarrants

end Environ

/-! ## Strategies -/

open Environ (DiffersOnlyIn settingNames credentialVariables)

variable {names : List String} {env env' : Environ} {files files' : FileSystem}

/-- **A login is the same** if the application is, and if the user and the mount are where there is one. -/
theorem AppId.select_eq
    (happId : env'.setting files' "VAULT_APP_ID" = env.setting files "VAULT_APP_ID")
    (hrest : (∃ appId, env.Resolves files "VAULT_APP_ID" appId) →
      env'.setting files' "VAULT_USER_ID" = env.setting files "VAULT_USER_ID" ∧
        env' "VAULT_AUTH_APP_ID_MOUNT" = env "VAULT_AUTH_APP_ID_MOUNT") :
    select env' files' = select env files := by
  unfold select
  rw [happId]
  refine Logged.bind_eq_bind ?_
  cases hvalue : (env.setting files "VAULT_APP_ID").value with
  | none => rfl
  | some appId =>
    obtain ⟨huserId, hmount⟩ := hrest ⟨appId, Environ.setting_value_iff.mp hvalue⟩
    dsimp only
    rw [huserId, Environ.nonEmpty?, hmount, ← Environ.nonEmpty?]

/-- **A given token is the same** if the setting is, and if the directory of the user and the file in it are
where there is no setting. -/
theorem StaticToken.select_eq
    (htoken : env'.setting files' "VAULT_TOKEN" = env.setting files "VAULT_TOKEN")
    (hdirectory : env' "HOME" = env "HOME")
    (hfile : ∀ directory, env "HOME" = some directory →
      files' (joinPath directory ".vault-token") = files (joinPath directory ".vault-token")) :
    select env' files' = select env files := by
  unfold select
  rw [htoken, hdirectory]
  refine Logged.bind_eq_bind ?_
  cases (env.setting files "VAULT_TOKEN").value with
  | some token => rfl
  | none =>
    cases hhome : env "HOME" with
    | none => rfl
    | some directory =>
      dsimp only
      rw [ofFile, FileSystem.trimmed, FileSystem.text, hfile directory hhome, ← FileSystem.text,
        ← FileSystem.trimmed, ← ofFile]

namespace Strategy

/-- **The strategy is the same** if the login is, and if the token is where there is no login. -/
theorem select_eq (happId : AppId.select env' files' = AppId.select env files)
    (htoken : ¬ env.GivesLogin files → StaticToken.select env' files' = StaticToken.select env files) :
    select env' files' = select env files := by
  unfold select
  rw [happId]
  refine Logged.bind_eq_bind ?_
  cases hlogin : (AppId.select env files).value with
  | some a => rfl
  | none =>
    dsimp only
    rw [htoken (AppId.select_value_eq_none_iff.mp hlogin)]

/-- **No file is told of that no variable names.** -/
theorem warrants_select (env : Environ) (files : FileSystem) :
    ∀ e ∈ (select env files).events, env.Warrants e := by
  have hsetting := env.warrants_setting files
  have hfile : ∀ path, ∀ e ∈ (StaticToken.ofFile files path).events, env.Warrants e := by
    intro path
    unfold StaticToken.ofFile
    split
    · exact List.forall_mem_singleton.mpr nofun
    · exact List.forall_mem_nil _
  refine Logged.forall_events_bind ?_ fun login => ?_
  · refine Logged.forall_events_bind (hsetting "VAULT_APP_ID") fun appId => ?_
    cases appId with
    | none => exact List.forall_mem_nil _
    | some appId =>
      refine Logged.forall_events_bind (hsetting "VAULT_USER_ID") fun userId => ?_
      cases userId with
      | none => exact List.forall_mem_nil _
      | some userId =>
        dsimp only
        split <;> exact List.forall_mem_nil _
  · cases login with
    | some a => exact List.forall_mem_nil _
    | none =>
      refine Logged.forall_events_bind ?_ fun token => ?_
      · refine Logged.forall_events_bind (hsetting "VAULT_TOKEN") fun token => ?_
        cases token with
        | some token => exact List.forall_mem_nil _
        | none =>
          dsimp only
          split
          · exact hfile _
          · exact List.forall_mem_nil _
      · cases token <;> exact List.forall_mem_nil _

end Strategy

/-! ## Building -/

namespace Builder

/-- What building comes to in an environment, be it one that is given or that of the process. -/
inductive BuildsIn (b : Builder) (env : Environ) (files : FileSystem) :
    Logged (Except Failure Client) → Prop
  | given (process : Environ) : BuildsIn b env files ((b.set (.environ env)).build process files)
  | process : b.environ = none → BuildsIn b env files (b.build env files)

/-- Building does not ask for some variables, nor for files that only these lead to. -/
structure Disregards (b : Builder) (env : Environ) (files : FileSystem) (names : List String) :
    Prop where
  /-- Whatever they are, the outcome and the events are the same. -/
  alike : ∀ env' files' r r', DiffersOnlyIn names env env' files files' → b.BuildsIn env files r →
    b.BuildsIn env' files' r' → r' = r
  /-- Nothing is told of a file that one of the variables names. -/
  untold : ∀ r, b.BuildsIn env files r → ∀ name ∈ names, ∀ path reason,
    .fileUnreadable name path reason ∉ r.events

variable {b : Builder}

theorem BuildsIn.eq {r : Logged (Except Failure Client)} (h : b.BuildsIn env files r) :
    r = (b.set (.environ env)).build env files := by
  cases h with
  | given process => rfl
  | process hnone =>
    unfold build
    rw [hnone]
    rfl

theorem warrants_build (b : Builder) (env : Environ) (files : FileSystem) :
    ∀ e ∈ ((b.set (.environ env)).build env files).events, env.Warrants e := by
  have hchosen : ∀ e ∈ (b.chosenStrategy env files).events, env.Warrants e := by
    unfold chosenStrategy
    split
    · exact List.forall_mem_nil _
    · exact Strategy.warrants_select env files
  unfold build
  dsimp only
  split
  · exact List.forall_mem_nil _
  · refine Logged.forall_events_bind hchosen fun strategy => ?_
    cases strategy with
    | error e => exact List.forall_mem_nil _
    | ok strategy =>
      refine Logged.forall_events_bind (List.forall_mem_singleton.mpr nofun) fun _ => ?_
      exact List.forall_mem_nil _

/-- **Building comes to the same** with the same address, and with the same strategy if there is one. -/
theorem build_eq {b' : Builder} {process process' : Environ}
    (hbase : b'.base (b'.environ.getD process') = b.base (b.environ.getD process))
    (hchosen : (∃ base, b.base (b.environ.getD process) = .ok base) →
      b'.chosenStrategy (b'.environ.getD process') files'
        = b.chosenStrategy (b.environ.getD process) files)
    (htimeout : b'.timeout = b.timeout) : b'.build process' files' = b.build process files := by
  unfold build
  dsimp only
  rw [hbase]
  cases haddress : b.base (b.environ.getD process) with
  | error e => rfl
  | ok base =>
    dsimp only
    rw [hchosen ⟨base, haddress⟩, htimeout]

/-- **Building disregards what the choice of a strategy does not depend on.** -/
theorem disregards_of_chosenStrategy (haddress : "VAULT_ADDR" ∉ names)
    (hchosen : ∀ env' files', DiffersOnlyIn names env env' files files' →
      (∃ base, b.base env = .ok base) →
      b.chosenStrategy env' files' = b.chosenStrategy env files) : b.Disregards env files names := by
  have halike : ∀ env' files' r r', DiffersOnlyIn names env env' files files' →
      b.BuildsIn env files r → b.BuildsIn env' files' r' → r' = r := by
    intro env' files' r r' hdiffers hr hr'
    have hbase : b.base env' = b.base env := by
      rw [base, hdiffers.environ _ haddress, ← base]
    rw [hr.eq, hr'.eq]
    exact build_eq hbase (hchosen env' files' hdiffers) rfl
  refine ⟨halike, fun r hr name hname path reason htold => ?_⟩
  -- without these variables the same would be told, but then they name no file
  have hdiffers : DiffersOnlyIn names env (env.without names) files files :=
    ⟨fun other hother => if_neg hother, fun _ _ _ _ => rfl⟩
  rw [← halike _ _ _ _ hdiffers hr (.given env)] at htold
  have hnamed := b.warrants_build (env.without names) files _ htold name path reason rfl
  rw [Environ.without, if_pos hname] at hnamed
  cases hnamed

theorem disregards_of_select (haddress : "VAULT_ADDR" ∉ names)
    (hselect : ∀ env' files', DiffersOnlyIn names env env' files files' →
      Strategy.select env' files' = Strategy.select env files) : b.Disregards env files names := by
  refine disregards_of_chosenStrategy haddress fun env' files' hdiffers _ => ?_
  unfold chosenStrategy
  rw [hselect env' files' hdiffers]

/-- The file of a setting is not asked for if the variable of the setting has a value. -/
theorem disregards_file {name : String} (hname : name ∈ settingNames) (hvalue : ¬ env.Lacks name) :
    b.Disregards env files [name ++ "_FILE"] := by
  have hapart : ∀ other ∈ ["VAULT_ADDR", "VAULT_AUTH_APP_ID_MOUNT", "HOME"] ++ settingNames,
      ∀ name ∈ settingNames, other ∉ [name ++ "_FILE"] := by decide
  have hsame : ∀ other ∈ settingNames, ∀ name ∈ settingNames,
      other ++ "_FILE" ∈ [name ++ "_FILE"] → other = name := by decide
  refine disregards_of_select (hapart _ (by decide) _ hname) fun env' files' h => ?_
  have hsetting : ∀ other ∈ settingNames, env'.setting files' other = env.setting files other := by
    intro other hother
    refine Environ.setting_eq hother h ?_ fun hlacks hmem => ?_
    · exact hapart _ (List.mem_append_right _ hother) _ hname
    · exact hvalue (hsame _ hother _ hname hmem ▸ hlacks)
  refine Strategy.select_eq ?_ fun _ => ?_
  · exact AppId.select_eq (hsetting _ (by decide)) fun _ =>
      ⟨hsetting _ (by decide), h.environ _ (hapart _ (by decide) _ hname)⟩
  · exact StaticToken.select_eq (hsetting _ (by decide))
      (h.environ _ (hapart _ (by decide) _ hname))
      fun _ hhome => h.files _ (hapart _ (by decide) _ hname) _ (.home hhome)

/-- No token is asked for if the environment gives a login. -/
theorem disregards_token (hlogin : env.GivesLogin files) :
    b.Disregards env files ["VAULT_TOKEN", "VAULT_TOKEN_FILE", "HOME"] := by
  refine disregards_of_select (by decide) fun env' files' h => ?_
  refine Strategy.select_eq ?_ fun hnone => absurd hlogin hnone
  refine AppId.select_eq ?_ fun _ => ⟨?_, h.environ _ (by decide)⟩
  · exact Environ.setting_eq (by decide) h (by decide) fun _ => by decide
  · exact Environ.setting_eq (by decide) h (by decide) fun _ => by decide

/-- Neither the user nor the mount is asked for if there is no application. -/
theorem disregards_user (hnone : ¬ ∃ appId, env.Resolves files "VAULT_APP_ID" appId) :
    b.Disregards env files
      ["VAULT_USER_ID", "VAULT_USER_ID_FILE", "VAULT_AUTH_APP_ID_MOUNT"] := by
  refine disregards_of_select (by decide) fun env' files' h => ?_
  refine Strategy.select_eq ?_ fun _ => ?_
  · exact AppId.select_eq (Environ.setting_eq (by decide) h (by decide) fun _ => by decide)
      fun happId => absurd happId hnone
  · exact StaticToken.select_eq (Environ.setting_eq (by decide) h (by decide) fun _ => by decide)
      (h.environ _ (by decide)) fun _ hhome => h.files _ (by decide) _ (.home hhome)

/-- No credentials are asked for if a strategy is given, or if there is no address that is a URL. -/
theorem disregards_credentials (h : b.strategy ≠ none ∨
    ∀ address, b.address.or (env "VAULT_ADDR") = some address → ∃ e, Url.parse address = .error e) :
    b.Disregards env files credentialVariables := by
  refine disregards_of_chosenStrategy (by decide) fun env' files' _ ⟨base, hbase⟩ => ?_
  rcases h with hgiven | hinvalid
  · obtain ⟨strategy, hstrategy⟩ := Option.ne_none_iff_exists'.mp hgiven
    unfold chosenStrategy
    rw [hstrategy]
  · exfalso
    unfold Builder.base at hbase
    split at hbase
    · cases hbase
    · next address haddress =>
      obtain ⟨e, he⟩ := hinvalid address haddress
      rw [he] at hbase
      cases hbase

/-- **What building disregards**: the file of a setting that a variable gives; tokens, where a login is
selected; the user and the mount, where there is no application; and all credentials with all their
files, where a strategy is given or there is no address that is a URL. -/
theorem sources_disregarded (b : Builder) (env : Environ) (files : FileSystem) :
    (∀ name ∈ settingNames, ¬ env.Lacks name → b.Disregards env files [name ++ "_FILE"]) ∧
    (∀ a, (Strategy.select env files).value = .ok (.appId a) →
      b.Disregards env files ["VAULT_TOKEN", "VAULT_TOKEN_FILE", "HOME"]) ∧
    ((¬ ∃ appId, env.Resolves files "VAULT_APP_ID" appId) →
      b.Disregards env files
        ["VAULT_USER_ID", "VAULT_USER_ID_FILE", "VAULT_AUTH_APP_ID_MOUNT"]) ∧
    ((b.strategy ≠ none ∨ ∀ address, b.address.or (env "VAULT_ADDR") = some address →
        ∃ e, Url.parse address = .error e) →
      b.Disregards env files credentialVariables) ∧
    ∀ env' files', (∀ name ∉ credentialVariables, env' name = env name) →
      DiffersOnlyIn credentialVariables env env' files files' := by
  refine ⟨fun name hname hvalue => disregards_file hname hvalue, fun a ha => ?_, disregards_user,
    disregards_credentials,
    fun env' files' h => Environ.differsOnlyIn_credentialVariables h files files'⟩
  obtain ⟨happId, huserId, -⟩ := (AppId.select_value_iff a).mp (Strategy.select_eq_appId_iff.mp ha)
  exact disregards_token ⟨⟨_, happId⟩, _, huserId⟩

/-- An environment with a login, and with files for the application and for a token. -/
def loginEnviron : Environ :=
  .ofList [("VAULT_ADDR", "http://v/"), ("VAULT_APP_ID", "a"), ("VAULT_APP_ID_FILE", "nowhere"),
    ("VAULT_USER_ID", "u"), ("VAULT_TOKEN_FILE", "nowhere")]

/-- Nothing is told of the files of a login that do not exist, until there is no application. -/
theorem sources_disregarded_loginEnviron :
    (ofList []).Disregards loginEnviron (fun _ => .error .notFound) ["VAULT_APP_ID_FILE"] ∧
    (ofList []).Disregards loginEnviron (fun _ => .error .notFound)
      ["VAULT_TOKEN", "VAULT_TOKEN_FILE", "HOME"] ∧
    (ofList []).Disregards (loginEnviron.without ["VAULT_APP_ID"]) (fun _ => .error .notFound)
      ["VAULT_USER_ID", "VAULT_USER_ID_FILE", "VAULT_AUTH_APP_ID_MOUNT"] ∧
    (ofList []).Disregards (loginEnviron.without ["VAULT_ADDR"]) (fun _ => .error .notFound)
      credentialVariables ∧
    ((ofList []).build (loginEnviron.without ["VAULT_APP_ID"]) fun _ => .error .notFound).events
      = [.fileUnreadable "VAULT_APP_ID_FILE" "nowhere" FileError.notFound.message,
        .fileUnreadable "VAULT_TOKEN_FILE" "nowhere" FileError.notFound.message] := by
  obtain ⟨hfile, htoken, -⟩ :=
    sources_disregarded (ofList []) loginEnviron fun _ => .error .notFound
  obtain ⟨-, -, huser, -⟩ := sources_disregarded (ofList [])
    (loginEnviron.without ["VAULT_APP_ID"]) fun _ => .error .notFound
  obtain ⟨-, -, -, hcredentials, -⟩ := sources_disregarded (ofList [])
    (loginEnviron.without ["VAULT_ADDR"]) fun _ => .error .notFound
  have hlogin : (Strategy.select loginEnviron fun _ => .error .notFound).value
      = .ok (.appId ⟨"a", "u", "app-id"⟩) := by
    rw [Strategy.select_eq_appId_iff]
    decide +kernel
  have happId : ¬ loginEnviron.Lacks "VAULT_APP_ID" :=
    fun hlacks => absurd (hlacks "a" rfl) (by decide)
  refine ⟨hfile "VAULT_APP_ID" (by decide) happId, htoken _ hlogin, huser ?_,
    hcredentials (Or.inr nofun), ?_⟩
  · exact Environ.setting_value_eq_none_iff.mp (by decide +kernel)
  · decide +kernel

end Builder

end SecretClient
