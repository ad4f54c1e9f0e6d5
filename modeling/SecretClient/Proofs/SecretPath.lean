import SecretClient.Proofs.Url.Outside
import SecretClient.SecretPath

/-!
# Where the path of a secret leads

The path of a request for a secret begins with `/v1` as a text. As a path it is read piece by piece, and
some of the pieces may be dot segments.

* `rootedAt_apiChars` : the segments of the path of a request
* `head?_rootedAt_apiChars` : when the first of them is `v1` (`StaysInside`)
-/

namespace SecretClient.SecretPath

open Segment

/-! ## The pieces behind `/v1` -/

/-- The pieces that a reader of URLs finds in a text. -/
def piecesOf (text : List Char) : List (List Char) :=
  (Url.stripped text).splitOnP SchemeKind.special.separates

/-- The pieces of the path of a request for a secret behind `/v1`. The empty path has none. -/
def pieces (path : String) : List (List Char) :=
  match collapse path.toList with
  | [] => []
  | '/' :: rest => piecesOf rest
  | normal => piecesOf normal

theorem rootedAt_slash (text : List Char) :
    Url.rootedAt .special (Url.stripped ('/' :: text)) = (resolve .special [] (piecesOf text)).reverse := by
  have hstripped : Url.stripped ('/' :: text) = '/' :: Url.stripped text := rfl
  rw [hstripped, Url.rootedAt, if_pos (by decide), read_special]
  rfl

/-- The pieces of a text are those in front of a slash and those behind it. -/
theorem piecesOf_append (front back : List Char) :
    piecesOf (front ++ '/' :: back) = piecesOf front ++ piecesOf back := by
  have hstripped : Url.stripped (front ++ '/' :: back)
      = Url.stripped front ++ '/' :: Url.stripped back := by
    unfold Url.stripped
    rw [List.filter_append]
    rfl
  rw [piecesOf, hstripped, List.splitOnP_append_cons _ _ (by decide)]
  rfl

theorem piecesOf_ne_nil (text : List Char) : piecesOf text ≠ [] := List.splitOnP_ne_nil _ _

/-- The name of the place where all secrets live. -/
def api : List Char := ['v', '1']

/-- The path of a request is `/v1` alone, or goes on behind it with the collapsed path and a slash in
front of it. -/
theorem apiChars_cases (path : String) :
    (apiChars path.toList = '/' :: api ∧ pieces path = [] ∧ collapse path.toList = []) ∨
      ∃ rest, apiChars path.toList = '/' :: (api ++ '/' :: rest) ∧ pieces path = piecesOf rest ∧
        (collapse path.toList = '/' :: rest ∨
          collapse path.toList = rest ∧ rest ≠ [] ∧ rest.head? ≠ some '/') := by
  unfold apiChars pieces
  cases collapse path.toList with
  | nil => exact Or.inl ⟨rfl, rfl, rfl⟩
  | cons c rest =>
    by_cases hc : c = '/'
    · subst hc
      exact Or.inr ⟨rest, rfl, rfl, Or.inl rfl⟩
    · refine Or.inr ⟨c :: rest, ?_, ?_, Or.inr ⟨rfl, List.cons_ne_nil _ _, by simpa using hc⟩⟩
      · simp [api, hc]
      · simp [hc]

example : apiPath "secret//x" = "/v1/secret/x" ∧ apiPath "//a/" = "/v1/a/" ∧ apiPath "" = "/v1" := by
  decide +kernel

/-- **The segments of the path of a request** are what its pieces leave behind `v1`. -/
theorem rootedAt_apiChars (path : String) :
    Url.rootedAt .special (Url.stripped (apiChars path.toList))
      = (resolve .special [api] (pieces path)).reverse := by
  rcases apiChars_cases path with ⟨hchars, hpieces, -⟩ | ⟨rest, hchars, hpieces, -⟩
  · rw [hchars, hpieces]
    rfl
  · have hapi : piecesOf api = [api] := rfl
    rw [hchars, hpieces, rootedAt_slash, piecesOf_append, hapi, List.singleton_append,
      resolve_cons _ _ (piecesOf_ne_nil rest)]
    rfl

/-! ## Inside and outside -/

/-- A path of a secret stays behind `/v1`: it does not lead out, or what is left of it then leads back. -/
def StaysInside (path : String) : Prop :=
  ∀ rest ∈ outside? [] (pieces path), (fromRoot rest).head? = some api

instance (path : String) : Decidable (StaysInside path) := by
  unfold StaysInside
  infer_instance

/-- **The first segment of the path of a request** is `v1` exactly if the path stays inside. -/
theorem head?_rootedAt_apiChars (path : String) :
    (Url.rootedAt .special (Url.stripped (apiChars path.toList))).head? = some api ↔
      StaysInside path := by
  rw [rootedAt_apiChars, StaysInside]
  cases hout : outside? [] (pieces path) with
  | none =>
    have hbelow := resolve_of_outside?_eq_none hout [api]
    rw [List.nil_append] at hbelow
    rw [hbelow, List.reverse_append]
    simp
  | some rest =>
    have hroot := resolve_of_outside?_eq_some hout (by decide : isDrive [':', '|'] api = false)
    rw [List.nil_append] at hroot
    rw [hroot]
    simp

/-- A path without `..` stays inside. -/
theorem staysInside_of_forall {path : String} (h : ∀ piece ∈ pieces path, dots? piece ≠ some 2) :
    StaysInside path := by
  rw [StaysInside, outside?_eq_none h]
  exact fun rest hrest => nomatch hrest

/-! ## Everything is in reach -/

theorem exists_collapse_slash (text : List Char) : ∃ rest, collapse ('/' :: text) = '/' :: rest := by
  induction text with
  | nil => exact ⟨[], rfl⟩
  | cons c text ih =>
    by_cases hc : c = '/'
    · subst hc
      rw [collapse]
      exact ih
    · refine ⟨collapse (c :: text), ?_⟩
      rw [collapse]
      intro rest _ heq
      exact hc (List.cons.inj heq).1

theorem fromRoot_piecesOf (text : List Char) :
    fromRoot (piecesOf text) = Url.rootedAt .special (Url.stripped ('/' :: text)) := by
  obtain ⟨piece, rest, hpieces⟩ := List.exists_cons_of_ne_nil (piecesOf_ne_nil text)
  rw [rootedAt_slash, hpieces, fromRoot]

/-- **Two dots in front of a path lead to the path itself**, from the root of the service. -/
theorem rootedAt_apiChars_dotdot (path : String) :
    Url.rootedAt .special (Url.stripped (apiChars ("../" ++ path).toList))
      = Url.rootedAt .special (Url.stripped (collapse ("/" ++ path).toList)) := by
  have hslash : ("/" ++ path).toList = '/' :: path.toList := by
    rw [String.toList_append]
    rfl
  have hdots : ("../" ++ path).toList = '.' :: '.' :: '/' :: path.toList := by
    rw [String.toList_append]
    rfl
  obtain ⟨rest, hrest⟩ := exists_collapse_slash path.toList
  have hcollapse : collapse ("../" ++ path).toList = ['.', '.'] ++ '/' :: rest := by
    rw [hdots, collapse, collapse, hrest]
    · rfl
    · simp
    · simp
  have hpieces : pieces ("../" ++ path) = [['.', '.']] ++ piecesOf rest := by
    rw [pieces, hcollapse]
    exact piecesOf_append ['.', '.'] rest
  have hout : outside? [] (pieces ("../" ++ path)) = some (piecesOf rest) := by
    rw [hpieces]
    rfl
  have hroot := resolve_of_outside?_eq_some hout (by decide : isDrive [':', '|'] api = false)
  rw [List.nil_append] at hroot
  rw [rootedAt_apiChars, hroot, hslash, hrest, fromRoot_piecesOf]

end SecretClient.SecretPath
