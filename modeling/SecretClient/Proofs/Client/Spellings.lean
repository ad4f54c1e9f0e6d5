import Mathlib.Data.List.Forall2
import SecretClient.Proofs.Client.Token
import SecretClient.Proofs.SecretPath.Normal

/-!
# Spellings of one secret

Paths name one secret if they have one path of a request. They do if they differ in the lengths of their
runs of slashes only, or in whether there are slashes at their beginning, and in no other case. Nothing but
the path of a request goes into a read, so a run does not depend on how its paths are spelled.

* `run_eq_of_sameSecret` : every step of a run with other spellings is the same
* `same_secret_iff` : which paths name one secret, and what follows for reads and runs
-/

namespace SecretClient

open SecretPath (apiPath names normalize)
open Segment (Doubled)

namespace SecretPath

variable {path path' : String}

theorem toList_apiPath (path : String) : (apiPath path).toList = apiChars path.toList :=
  String.toList_ofList

theorem apiPath_eq_iff_apiChars :
    apiPath path = apiPath path' ↔ apiChars path.toList = apiChars path'.toList := by
  rw [← String.toList_inj, toList_apiPath, toList_apiPath]

theorem toList_slash (path : String) : ("/" ++ path).toList = '/' :: path.toList := by
  rw [String.toList_append]
  rfl

/-- **Paths name one secret** if both are empty, or if they collapse to the same behind a slash. -/
theorem apiPath_eq_iff : apiPath path = apiPath path' ↔
    path = "" ∧ path' = "" ∨
      path ≠ "" ∧ path' ≠ "" ∧ normalize ("/" ++ path) = normalize ("/" ++ path') := by
  rw [apiPath_eq_iff_apiChars, apiChars_eq_iff, ← @String.toList_inj (normalize _),
    toList_normalize, toList_normalize, toList_slash, toList_slash]
  simp only [ne_eq, String.toList_eq_nil_iff]

/-- The path of a request is `/v1` or goes on behind it with a slash. -/
theorem apiPath_begins (path : String) :
    apiPath path = "/v1" ∨ "/v1/".toList <+: (apiPath path).toList := by
  rw [← String.toList_inj, toList_apiPath]
  rcases apiChars_cases path with ⟨hchars, -⟩ | ⟨rest, hchars, -⟩
  · exact Or.inl hchars
  · exact Or.inr ⟨rest, hchars.symm⟩

end SecretPath

/-! ## Reads -/

/-- The same operation, but for the spelling of its path. -/
inductive Operation.SameSecret : Operation → Operation → Prop
  | same (operation : Operation) : SameSecret operation operation
  | read {path path' : String} : apiPath path = apiPath path' →
      SameSecret (.read path) (.read path')
  | readValue {path path' : String} : apiPath path = apiPath path' →
      SameSecret (.readValue path) (.readValue path')
  | readAs {shape : Shape} {path path' : String} : apiPath path = apiPath path' →
      SameSecret (.readAs shape path) (.readAs shape path')

namespace Client

variable {c : Client} {path path' : String}

theorem read_eq_of_apiPath (h : apiPath path = apiPath path') (peer : Http.Peer) :
    c.read path peer = c.read path' peer := by
  have horder : c.readOrder path = c.readOrder path' := by rw [readOrder, h, ← readOrder]
  rw [read, horder, ← read]

theorem readAs_eq_of_apiPath {α : Type} (h : apiPath path = apiPath path') (reader : Json.Reader α)
    (peer : Http.Peer) : c.readAs reader path peer = c.readAs reader path' peer := by
  rw [readAs, read_eq_of_apiPath h, ← readAs]

/-- **An operation does not depend on how its path is spelled**, and neither does the client after it. -/
theorem perform_eq_of_sameSecret {operation operation' : Operation}
    (h : operation.SameSecret operation') (peer : Http.Peer) :
    c.perform operation peer = c.perform operation' peer := by
  cases h with
  | same => rfl
  | read hpath => simp only [perform, read_eq_of_apiPath hpath]
  | readValue hpath => simp only [perform, readValue, readAs_eq_of_apiPath hpath]
  | readAs hpath => simp only [perform, readAs_eq_of_apiPath hpath]

/-- **A run does not depend on how its paths are spelled.** -/
theorem run_eq_of_sameSecret {steps steps' : List (Operation × Http.Peer)}
    (h : List.Forall₂ (fun s s' => s.1.SameSecret s'.1 ∧ s.2 = s'.2) steps steps') :
    c.run steps = c.run steps' := by
  -- each step leaves the same client for the rest, whichever that is
  induction h generalizing c with
  | nil => rfl
  | @cons s s' _ _ hstep _ ih =>
    obtain ⟨operation, peer⟩ := s
    obtain ⟨operation', peer'⟩ := s'
    obtain ⟨hsame, rfl⟩ := hstep
    have hperform : c.perform operation peer = c.perform operation' peer :=
      perform_eq_of_sameSecret hsame peer
    simp only [run, hperform, ih]

/-- **Which paths name one secret.** Slashes in runs and in front make no difference to the path of a
request, and all else does; only the empty path is for itself. The path of a request is `/v1` or goes on
behind `/v1/`, without two slashes next to each other. Reads, and whole runs, depend on nothing else of
a path. -/
theorem same_secret_iff :
    (∀ path path', apiPath path = apiPath path' ↔
      path = "" ∧ path' = "" ∨
        path ≠ "" ∧ path' ≠ "" ∧ normalize ("/" ++ path) = normalize ("/" ++ path')) ∧
    (∀ path path', apiPath path = apiPath path' ↔
      (path = "" ↔ path' = "") ∧ names path.toList = names path'.toList ∧
        (path.toList.getLast? = some '/' ↔ path'.toList.getLast? = some '/')) ∧
    (∀ path, (apiPath path = "/v1" ∨ "/v1/".toList <+: (apiPath path).toList) ∧
      ¬ Doubled (apiPath path).toList) ∧
    (∀ path path', apiPath path = apiPath path' → ∀ (c : Client) (peer : Http.Peer),
      c.read path peer = c.read path' peer ∧
      c.readValue path peer = c.readValue path' peer ∧
      ∀ (α : Type) (reader : Json.Reader α), c.readAs reader path peer = c.readAs reader path' peer) ∧
    ∀ (c : Client) (steps steps' : List (Operation × Http.Peer)),
      List.Forall₂ (fun s s' => s.1.SameSecret s'.1 ∧ s.2 = s'.2) steps steps' →
      c.run steps = c.run steps' := by
  refine ⟨fun path path' => SecretPath.apiPath_eq_iff, fun path path' => ?_, fun path => ⟨?_, ?_⟩,
    fun path path' hpath c peer => ⟨?_, ?_, ?_⟩, fun c steps steps' => run_eq_of_sameSecret⟩
  · rw [SecretPath.apiPath_eq_iff_apiChars, SecretPath.apiChars_eq_iff_names,
      String.toList_eq_nil_iff, String.toList_eq_nil_iff]
  · exact SecretPath.apiPath_begins path
  · rw [SecretPath.toList_apiPath]
    exact SecretPath.not_doubled_apiChars path
  · exact read_eq_of_apiPath hpath peer
  · exact readAs_eq_of_apiPath hpath secretReader peer
  · intro α reader
    exact readAs_eq_of_apiPath hpath reader peer

/-- A run that begins with a read of a path. -/
def readFirst (path : String) : List (Operation × Http.Peer) := (.read path, {}) :: exampleSteps

/-- Two spellings of a secret, a run that reads it as either, and paths that do not name one secret. -/
theorem same_secret_exampleClient :
    apiPath "//a///b" = apiPath "a/b" ∧
      exampleClient.run (readFirst "//a///b") = exampleClient.run (readFirst "a/b") ∧
      apiPath "a/b/" ≠ apiPath "a/b" ∧ apiPath "/" ≠ apiPath "" := by
  obtain ⟨-, hnames, -, -, hrun⟩ := same_secret_iff
  have hpath : apiPath "//a///b" = apiPath "a/b" := (hnames _ _).mpr (by decide +kernel)
  have hsteps : List.Forall₂ (fun s s' => s.1.SameSecret s'.1 ∧ s.2 = s'.2) (readFirst "//a///b")
      (readFirst "a/b") :=
    .cons ⟨.read hpath, rfl⟩ (List.forall₂_same.mpr fun s _ => ⟨.same s.1, rfl⟩)
  refine ⟨hpath, hrun exampleClient _ _ hsteps, fun h => ?_, fun h => ?_⟩
  · exact absurd ((hnames _ _).mp h) (by decide +kernel)
  · exact absurd ((hnames _ _).mp h) (by decide +kernel)

end Client

end SecretClient
