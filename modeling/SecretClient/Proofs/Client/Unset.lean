import SecretClient.Proofs.Client.Building

/-!
# Variables that are set to nothing

Whether an empty value counts as unset. It does for every setting, for the files that variables name, and
for the mount of a login. It does not for the address, and not for the directory of the user: then the
file with the token is looked for where the program runs.

* `build_withoutEmpty` : when building gives the same without the empty variables, and what it gives
  when it does not
* `build_emptyAddress_emptyHome` : environments for which it does not
-/

namespace SecretClient

/-- The environment without the variables that are set to nothing. -/
def Environ.withoutEmpty (env : Environ) : Environ := env.nonEmpty?

/-- There is no file without a name. -/
def FileSystem.NeedsName (files : FileSystem) : Prop := ∃ e, files "" = .error e

theorem FileTree.needsName_read (tree : FileTree) : tree.read.NeedsName := ⟨.notFound, rfl⟩

/-! ## Files and settings -/

theorem FileSystem.NeedsName.ne_empty {files : FileSystem} (h : files.NeedsName) {path value : String}
    (hholds : files.Holds path value) : path ≠ "" := by
  rintro rfl
  obtain ⟨e, he⟩ := h
  obtain ⟨htext, -, -⟩ := hholds
  rw [he] at htext
  cases htext

namespace Environ

variable {env : Environ} {files : FileSystem} {name value : String}

theorem withoutEmpty_eq_some_iff :
    env.withoutEmpty name = some value ↔ env name = some value ∧ value ≠ "" :=
  nonEmpty?_eq_some_iff

theorem lacks_withoutEmpty_iff : env.withoutEmpty.Lacks name ↔ env.Lacks name := by
  unfold Lacks
  simp only [withoutEmpty_eq_some_iff]
  exact ⟨fun h value hset => by_contra fun hne => hne (h value ⟨hset, hne⟩),
    fun h value ⟨hset, hne⟩ => absurd (h value hset) hne⟩

/-- **No setting depends on the empty variables.** -/
theorem resolves_withoutEmpty_iff (hfiles : files.NeedsName) :
    env.withoutEmpty.Resolves files name value ↔ env.Resolves files name value := by
  constructor
  · rintro (⟨hset, hne⟩ | ⟨hlacks, hpath, hholds⟩)
    · exact .direct (withoutEmpty_eq_some_iff.mp hset).1 hne
    · exact .file (lacks_withoutEmpty_iff.mp hlacks) (withoutEmpty_eq_some_iff.mp hpath).1 hholds
  · rintro (⟨hset, hne⟩ | ⟨hlacks, hpath, hholds⟩)
    · exact .direct (withoutEmpty_eq_some_iff.mpr ⟨hset, hne⟩) hne
    · exact .file (lacks_withoutEmpty_iff.mpr hlacks)
        (withoutEmpty_eq_some_iff.mpr ⟨hpath, hfiles.ne_empty hholds⟩) hholds

theorem mounts_withoutEmpty_iff : env.withoutEmpty.Mounts value ↔ env.Mounts value := by
  constructor
  · rintro (⟨hset, hne, htrimmed⟩ | hlacks)
    · exact .given (withoutEmpty_eq_some_iff.mp hset).1 hne htrimmed
    · exact .default (lacks_withoutEmpty_iff.mp hlacks)
  · rintro (⟨hset, hne, htrimmed⟩ | hlacks)
    · exact .given (withoutEmpty_eq_some_iff.mpr ⟨hset, hne⟩) hne htrimmed
    · exact .default (lacks_withoutEmpty_iff.mpr hlacks)

/-- The token is taken from the file `.vault-token` that lies where the program runs, because the
directory of the user is set to nothing. -/
structure StrayToken (env : Environ) (files : FileSystem) (token : String) : Prop where
  home : env "HOME" = some ""
  unset : ¬ ∃ token, env.Resolves files "VAULT_TOKEN" token
  holds : files.Holds ".vault-token" token

/-- **A token depends on the empty variables** only if it is one from where the program runs. -/
theorem givesToken_withoutEmpty_iff (hfiles : files.NeedsName) {token : String} :
    env.withoutEmpty.GivesToken files token ↔
      env.GivesToken files token ∧ ¬ env.StrayToken files token := by
  constructor
  · rintro (hsetting | ⟨hnone, hhome, hholds⟩)
    · have hsetting := (resolves_withoutEmpty_iff hfiles).mp hsetting
      exact ⟨.setting hsetting, fun hstray => hstray.unset ⟨token, hsetting⟩⟩
    · simp only [resolves_withoutEmpty_iff hfiles] at hnone
      obtain ⟨hhome, hne⟩ := withoutEmpty_eq_some_iff.mp hhome
      refine ⟨.home hnone hhome hholds, fun hstray => ?_⟩
      exact hne (Option.some.inj (hhome.symm.trans hstray.home))
  · rintro ⟨hsetting | ⟨hnone, hhome, hholds⟩, hstray⟩
    · exact .setting ((resolves_withoutEmpty_iff hfiles).mpr hsetting)
    · refine .home (by simpa only [resolves_withoutEmpty_iff hfiles] using hnone)
        (withoutEmpty_eq_some_iff.mpr ⟨hhome, ?_⟩) hholds
      rintro rfl
      exact hstray ⟨hhome, hnone, hholds⟩

end Environ

/-! ## Strategies -/

variable {env : Environ} {files : FileSystem}

theorem AppId.select_withoutEmpty (hfiles : files.NeedsName) (env : Environ) :
    (AppId.select env.withoutEmpty files).value = (AppId.select env files).value := by
  refine Option.ext fun a => ?_
  rw [select_value_iff, select_value_iff, Environ.resolves_withoutEmpty_iff hfiles,
    Environ.resolves_withoutEmpty_iff hfiles, Environ.mounts_withoutEmpty_iff]

theorem StaticToken.select_withoutEmpty (hfiles : files.NeedsName)
    (h : ¬ ∃ token, env.StrayToken files token) :
    (StaticToken.select env.withoutEmpty files).value = (StaticToken.select env files).value := by
  refine Option.ext fun token => ?_
  rw [select_value_iff, select_value_iff, Environ.givesToken_withoutEmpty_iff hfiles]
  exact and_iff_left fun hstray => h ⟨token, hstray⟩

namespace Strategy

/-- A token from where the program runs is used, and nothing is left without the empty variables. -/
theorem select_of_strayToken (hfiles : files.NeedsName) (hlogin : ¬ env.GivesLogin files)
    {token : String} (hstray : env.StrayToken files token) :
    (select env files).value = .ok (.static token) ∧
      (select env.withoutEmpty files).value = .error .strategyMissing := by
  have hgives : env.GivesToken files token := .home hstray.unset hstray.home hstray.holds
  have htoken := (StaticToken.select_value_iff token).mpr hgives
  have hmissing : (StaticToken.select env.withoutEmpty files).value = none := by
    rw [StaticToken.select_value_eq_none_iff]
    rintro ⟨other, hother⟩
    -- an environment gives one token only, so it would be the one from where the program runs
    obtain ⟨hother, hnot⟩ := (Environ.givesToken_withoutEmpty_iff hfiles).mp hother
    rw [← StaticToken.select_value_iff, htoken] at hother
    cases hother
    exact hnot hstray
  rw [select_value, select_value, AppId.select_withoutEmpty hfiles,
    AppId.select_value_eq_none_iff.mpr hlogin, htoken, hmissing]
  exact ⟨rfl, rfl⟩

/-- **Which strategy is selected** depends on the empty variables only if it is a token from where the
program runs. -/
theorem select_withoutEmpty_iff (hfiles : files.NeedsName) :
    (select env.withoutEmpty files).value = (select env files).value ↔
      ¬ (¬ env.GivesLogin files ∧ ∃ token, env.StrayToken files token) := by
  constructor
  · rintro h ⟨hlogin, token, hstray⟩
    obtain ⟨hgiven, hmissing⟩ := select_of_strayToken hfiles hlogin hstray
    rw [hgiven, hmissing] at h
    cases h
  · intro h
    rw [select_value, select_value, AppId.select_withoutEmpty hfiles]
    cases hlogin : (AppId.select env files).value with
    | some a => rfl
    | none =>
      have hlogin := AppId.select_value_eq_none_iff.mp hlogin
      rw [StaticToken.select_withoutEmpty hfiles fun hstray => h ⟨hlogin, hstray⟩]

end Strategy

/-! ## Building -/

namespace Builder

/-- A client that is built from an environment alone. -/
theorem build_environ (env process : Environ) (files : FileSystem) :
    ((ofList [.environ env]).build process files).value =
      match env "VAULT_ADDR" with
      | none => .error .addressMissing
      | some text =>
        match Url.parse text with
        | .error cause => .error (.addressInvalid text cause)
        | .ok base => (Strategy.select env files).value.map fun strategy => { base, strategy } := by
  rw [build_value]
  show (base { environ := some env } env >>= _) = _
  unfold base
  dsimp only
  rw [Option.none_or]
  cases env "VAULT_ADDR" with
  | none => rfl
  | some text =>
    dsimp only
    cases Url.parse text <;> rfl

/-- An address that is empty is no URL, and without it there is none. -/
theorem build_of_emptyAddress (haddress : env "VAULT_ADDR" = some "") (process : Environ)
    (files : FileSystem) :
    ((ofList [.environ env]).build process files).value
      = .error (.addressInvalid "" .missingBase) ∧
    ((ofList [.environ env.withoutEmpty]).build process files).value = .error .addressMissing := by
  have hunset : env.withoutEmpty "VAULT_ADDR" = none := by
    unfold Environ.withoutEmpty Environ.nonEmpty?
    rw [haddress]
    rfl
  rw [build_environ, build_environ, haddress, hunset]
  exact ⟨rfl, rfl⟩

theorem build_of_strayToken (hfiles : files.NeedsName) {text token : String} {base : Url}
    (haddress : env "VAULT_ADDR" = some text) (hparse : Url.parse text = .ok base)
    (hlogin : ¬ env.GivesLogin files) (hstray : env.StrayToken files token) (process : Environ) :
    ((ofList [.environ env]).build process files).value
      = .ok { base, strategy := .static token } ∧
    ((ofList [.environ env.withoutEmpty]).build process files).value = .error .strategyMissing := by
  have hne : text ≠ "" := by
    rintro rfl
    cases hparse
  obtain ⟨hgiven, hmissing⟩ := Strategy.select_of_strayToken hfiles hlogin hstray
  rw [build_environ, build_environ, haddress,
    Environ.withoutEmpty_eq_some_iff.mpr ⟨haddress, hne⟩]
  dsimp only
  rw [hparse]
  dsimp only
  rw [hgiven, hmissing]
  exact ⟨rfl, rfl⟩

theorem build_withoutEmpty_of_ne (hfiles : files.NeedsName) (haddress : env "VAULT_ADDR" ≠ some "")
    (h : ¬ ((∃ text base, env "VAULT_ADDR" = some text ∧ Url.parse text = .ok base) ∧
      ¬ env.GivesLogin files ∧ ∃ token, env.StrayToken files token)) (process : Environ) :
    ((ofList [.environ env.withoutEmpty]).build process files).value
      = ((ofList [.environ env]).build process files).value := by
  have hsame : env.withoutEmpty "VAULT_ADDR" = env "VAULT_ADDR" := by
    refine Option.ext fun text => Environ.withoutEmpty_eq_some_iff.trans ?_
    exact and_iff_left_of_imp fun htext hempty => haddress (hempty ▸ htext)
  rw [build_environ, build_environ, hsame]
  cases htext : env "VAULT_ADDR" with
  | none => rfl
  | some text =>
    dsimp only
    cases hparse : Url.parse text with
    | error cause => rfl
    | ok base =>
      have hselect := (Strategy.select_withoutEmpty_iff hfiles).mpr fun hstray =>
        h ⟨⟨text, base, htext, hparse⟩, hstray⟩
      dsimp only
      rw [hselect]

/-- **Variables that are set to nothing count as unset**, but for the address, and for the directory of
the user if a token lies where the program runs and nothing else gives one. An address that is empty is no
URL, and such a token is used. -/
theorem build_withoutEmpty (hfiles : files.NeedsName) (env process : Environ) :
    (((ofList [.environ env.withoutEmpty]).build process files).value
        = ((ofList [.environ env]).build process files).value ↔
      env "VAULT_ADDR" ≠ some "" ∧
        ¬ ((∃ text base, env "VAULT_ADDR" = some text ∧ Url.parse text = .ok base) ∧
          ¬ env.GivesLogin files ∧ ∃ token, env.StrayToken files token)) ∧
    (env "VAULT_ADDR" = some "" →
      ((ofList [.environ env]).build process files).value
        = .error (.addressInvalid "" .missingBase) ∧
      ((ofList [.environ env.withoutEmpty]).build process files).value = .error .addressMissing) ∧
    ∀ text base token, env "VAULT_ADDR" = some text → Url.parse text = .ok base →
      ¬ env.GivesLogin files → env.StrayToken files token →
      ((ofList [.environ env]).build process files).value
        = .ok { base, strategy := .static token } ∧
      ((ofList [.environ env.withoutEmpty]).build process files).value
        = .error .strategyMissing := by
  refine ⟨⟨fun hsame => ⟨fun haddress => ?_, ?_⟩,
      fun ⟨haddress, h⟩ => build_withoutEmpty_of_ne hfiles haddress h process⟩,
    fun haddress => build_of_emptyAddress haddress process files,
    fun text base token haddress hparse hlogin hstray =>
      build_of_strayToken hfiles haddress hparse hlogin hstray process⟩
  · obtain ⟨hinvalid, hmissing⟩ := build_of_emptyAddress haddress process files
    rw [hinvalid, hmissing] at hsame
    cases hsame
  · rintro ⟨⟨text, base, haddress, hparse⟩, hlogin, token, hstray⟩
    obtain ⟨hgiven, hmissing⟩ :=
      build_of_strayToken hfiles haddress hparse hlogin hstray process
    rw [hgiven, hmissing] at hsame
    cases hsame

/-- A working directory with a token in it. -/
def strayTree : FileTree := ⟨[([".vault-token"], .file (Utf8.encode ['t']))]⟩

/-- An environment with a token, and with settings, a mount and a directory that are set to nothing. -/
def tokenEnviron : Environ :=
  .ofList [("VAULT_ADDR", "http://v/"), ("VAULT_APP_ID", ""), ("VAULT_USER_ID_FILE", ""),
    ("VAULT_AUTH_APP_ID_MOUNT", ""), ("VAULT_TOKEN", "t"), ("HOME", "")]

/-- The empty variables make no difference beside the token. -/
theorem build_tokenEnviron : strayTree.read.NeedsName ∧
    ((ofList [.environ tokenEnviron.withoutEmpty]).build (fun _ => none) strayTree.read).value
      = ((ofList [.environ tokenEnviron]).build (fun _ => none) strayTree.read).value := by
  have hfiles := strayTree.needsName_read
  have hsame := (build_withoutEmpty hfiles tokenEnviron fun _ => none).1
  refine ⟨hfiles, hsame.mpr ⟨by decide, ?_⟩⟩
  rintro ⟨-, -, token, hstray⟩
  exact hstray.unset ⟨"t", .direct rfl (by decide)⟩

/-- An environment with a token and an address that is set to nothing. -/
def emptyAddress : Environ := .ofList [("VAULT_ADDR", ""), ("VAULT_TOKEN", "t")]

/-- An environment with an address and a directory of the user that is set to nothing. -/
def emptyHome : Environ := .ofList [("VAULT_ADDR", "http://v/"), ("HOME", "")]

theorem strayToken_emptyHome : emptyHome.StrayToken strayTree.read "t" where
  home := rfl
  unset := Environ.setting_value_eq_none_iff.mp (by decide +kernel)
  holds := FileSystem.trimmed_eq_some_iff.mp (by decide +kernel)

/-- **Two variables that are set to nothing do not count as unset**: an empty address is another failure
than none, and with an empty directory of the user a client is built with the token from where the program
runs. -/
theorem build_emptyAddress_emptyHome :
    ((ofList [.environ emptyAddress.withoutEmpty]).build (fun _ => none) strayTree.read).value
      ≠ ((ofList [.environ emptyAddress]).build (fun _ => none) strayTree.read).value ∧
    ((ofList [.environ emptyHome.withoutEmpty]).build (fun _ => none) strayTree.read).value
      ≠ ((ofList [.environ emptyHome]).build (fun _ => none) strayTree.read).value := by
  have hempty : emptyAddress "VAULT_ADDR" = some "" := rfl
  have haddress : emptyHome "VAULT_ADDR" = some "http://v/" := rfl
  obtain ⟨hinvalid, hmissing⟩ := build_of_emptyAddress hempty (fun _ => none) strayTree.read
  have hlogin : ¬ emptyHome.GivesLogin strayTree.read :=
    AppId.select_value_eq_none_iff.mp (by decide +kernel)
  have hparse : Url.parse "http://v/" = .ok
    { scheme := "http", authority := some { host := .name ['v'] }, path := .rooted [[]] } := rfl
  obtain ⟨hgiven, hnone⟩ := build_of_strayToken strayTree.needsName_read haddress hparse hlogin
    strayToken_emptyHome fun _ => none
  rw [hinvalid, hmissing, hgiven, hnone]
  exact ⟨by simp, nofun⟩

end Builder

end SecretClient
