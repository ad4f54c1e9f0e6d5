import SecretClient.Proofs.Client.Confined
import SecretClient.Proofs.Client.Inside
import SecretClient.Proofs.SecretPath.Collapse

/-!
# The path on the wire

The path of a secret is collapsed, put behind `/v1`, and then read as the path of a URL. The reader of
URLs cuts at backslashes too, drops tabs and line ends, and settles dot segments. On all other paths it
does nothing but encode characters.

* `wire_path_exact` : the path on the wire, character by character and segment by segment
-/

namespace SecretClient

/-- The characters that a URL never needs to encode. -/
def EncodeSet.IsUnreserved (c : Char) : Prop := c.isAlphanum = true ∨ c ∈ ['-', '.', '_', '~']

instance (c : Char) : Decidable (EncodeSet.IsUnreserved c) := by
  unfold EncodeSet.IsUnreserved
  infer_instance

namespace Percent

variable {c : Char}

theorem toNat_lt_of_isUnreserved (h : EncodeSet.IsUnreserved c) : c.toNat < 0x80 := by
  rcases h with h | h
  · have hscheme : Url.isSchemeChar c = true := by simp [Url.isSchemeChar, h]
    rw [Url.isSchemeChar_iff] at hscheme
    omega
  · exact Pieces.forall_mem_of_all (P := fun c => c.toNat < 0x80) (by decide) c h

/-- Slashes, percent signs and unreserved characters of a path are kept. -/
theorem char_path_kept (h : c = '/' ∨ c = '%' ∨ EncodeSet.IsUnreserved c) :
    char EncodeSet.path c = [c] := by
  have hall : ∀ n < 0x80, EncodeSet.IsUnreserved (Char.ofNat n) →
      EncodeSet.path (Char.ofNat n) = false := by decide +kernel
  refine char_of_not_mem ?_
  rcases h with rfl | rfl | h
  · decide
  · decide
  · exact Pieces.of_ascii (P := fun c => EncodeSet.IsUnreserved c → EncodeSet.path c = false) hall
      (toNat_lt_of_isUnreserved h) h

/-- The marks of query and fragment, blanks, controls and all characters outside ASCII are encoded in a
path. -/
theorem char_path_encoded (h : c ∈ ['?', '#', ' '] ∨ c.toNat < 0x20 ∨ 0x7F ≤ c.toNat) :
    char EncodeSet.path c = (String.utf8EncodeChar c).flatMap byte := by
  rw [char, if_pos]
  rcases h with h | h
  · exact Pieces.forall_mem_of_all (P := fun c => EncodeSet.path c = true) (by decide) c h
  · simp [EncodeSet.path, EncodeSet.fragment, EncodeSet.control, h]

/-- Each character of a path is kept or encoded. -/
theorem char_path_cases (c : Char) : char EncodeSet.path c = [c] ∨
    char EncodeSet.path c = (String.utf8EncodeChar c).flatMap byte := by
  unfold char
  split
  · exact Or.inr rfl
  · exact Or.inl rfl

end Percent

namespace Client

open SecretPath (apiPath api names)

variable {c : Client}

/-- The path that the URL of a secret has. -/
def wirePath (c : Client) (path : String) : List Char :=
  Url.pathText (c.base.withPath (apiPath path)).path

/-! ## Where this path is seen -/

section

variable {address : String} (hparse : Url.parse address = .ok c.base) (hhttp : c.base.isHttp = true)
include hparse hhttp

theorem wirePath_eq (path : String) :
    c.wirePath path
      = Segment.text (Url.rootedAt .special (Url.stripped (SecretPath.apiChars path.toList))) := by
  rw [wirePath, Url.withPath_eq hparse hhttp, apiPath, String.toList_ofList]
  rfl

theorem secretUrl_eq (path : String) :
    c.secretUrl path
      = String.ofList (c.base.beforePath ++ c.wirePath path ++ c.base.behindPath) :=
  Url.text_withPath hparse hhttp _

theorem wirePath_of_parse {path : String} {u : Url} (hu : Url.parse (c.secretUrl path) = .ok u) :
    Url.pathText u.path = c.wirePath path := by
  rw [wirePath, ← Url.path_of_parse_withPath hparse hhttp hu]

theorem wirePath_of_first {operation : Operation} {path : String} {peer : Http.Peer}
    {q : Http.Request} (hreads : operation.Reads path)
    (hq : (c.perform operation peer).1.requests[0]? = some q) :
    Url.pathText q.target.path = c.wirePath path := by
  rw [wirePath, path_of_first_request hparse hhttp (order?_of_reads hreads) rfl hq]

/-! ## Plain paths -/

/-- **A plain path without dot segments is encoded character by character.** -/
theorem wirePath_of_isPlain {path : String} (hplain : SecretPath.IsPlain path.toList)
    (hdots : ∀ piece ∈ path.toList.splitOn '/', ¬ Segment.IsDotSegment piece) :
    c.wirePath path = Percent.encode EncodeSet.path (SecretPath.apiChars path.toList) := by
  rw [wirePath_eq hparse hhttp, SecretPath.rootedAt_of_isPlain hplain hdots, ← Segment.encode_text,
    ← SecretPath.apiChars_of_isPlain hplain]

/-- **The path on the wire**, for a path of a secret without dot segments and without the characters
that a reader of URLs changes. It is that of the endpoint, as it is written, read and asked for. It is
encoded character by character and segment by segment, and has no two slashes next to each other. -/
theorem wire_path_exact {path : String} (hplain : SecretPath.IsPlain path.toList)
    (hdots : ∀ piece ∈ path.toList.splitOn '/', ¬ Segment.IsDotSegment piece) :
    c.endpoint (apiPath path)
      = String.ofList (c.base.beforePath ++ c.wirePath path ++ c.base.behindPath) ∧
    (∀ u, Url.parse (c.endpoint (apiPath path)) = .ok u → Url.pathText u.path = c.wirePath path) ∧
    (∀ operation peer q, operation.Reads path →
      (c.perform operation peer).1.requests[0]? = some q →
      Url.pathText q.target.path = c.wirePath path) ∧
    c.wirePath path = (apiPath path).toList.flatMap (Percent.char EncodeSet.path) ∧
    (∀ ch, Percent.char EncodeSet.path ch = [ch] ∨
      Percent.char EncodeSet.path ch = (String.utf8EncodeChar ch).flatMap Percent.byte) ∧
    (∀ ch, ch = '/' ∨ ch = '%' ∨ EncodeSet.IsUnreserved ch → Percent.char EncodeSet.path ch = [ch]) ∧
    (∀ ch : Char, ch ∈ ['?', '#', ' '] ∨ ch.toNat < 0x20 ∨ 0x7F ≤ ch.toNat →
      Percent.char EncodeSet.path ch = (String.utf8EncodeChar ch).flatMap Percent.byte) ∧
    (c.wirePath path).splitOn '/'
      = ((apiPath path).toList.splitOn '/').map (Percent.encode EncodeSet.path) ∧
    names (c.wirePath path) = api :: (names path.toList).map (Percent.encode EncodeSet.path) ∧
    ¬ Segment.Doubled (c.wirePath path) ∧
    ((c.wirePath path).getLast? = some '/' ↔
      (SecretPath.normalize path).toList.getLast? = some '/') := by
  have hwire := wirePath_of_isPlain hparse hhttp hplain hdots
  refine ⟨secretUrl_eq hparse hhttp path, fun u => wirePath_of_parse hparse hhttp,
    fun operation peer q => wirePath_of_first hparse hhttp, ?_, Percent.char_path_cases,
    fun ch => Percent.char_path_kept, fun ch => Percent.char_path_encoded, ?_, ?_, ?_, ?_⟩ <;>
    rw [hwire]
  · rw [apiPath, String.toList_ofList]
    rfl
  · rw [apiPath, String.toList_ofList, Segment.splitOn_encode]
  · rw [SecretPath.names_encode, SecretPath.names_apiChars, List.map_cons]
    rfl
  · rw [Segment.doubled_encode_iff]
    exact SecretPath.not_doubled_apiChars path
  · rw [Segment.getLast?_encode_iff, SecretPath.getLast?_apiChars_iff, SecretPath.normalize,
      String.toList_ofList]

end

/-- A path with slashes, blanks and characters outside ASCII is encoded and not cut anew. -/
theorem wire_path_exampleClient : Url.parse "http://v/" = .ok exampleClient.base ∧
    exampleClient.base.isHttp = true ∧ SecretPath.IsPlain "a//b ?é/%2f/".toList ∧
    (∀ piece ∈ "a//b ?é/%2f/".toList.splitOn '/', ¬ Segment.IsDotSegment piece) ∧
    exampleClient.wirePath "a//b ?é/%2f/" = "/v1/a/b%20%3F%C3%A9/%2f/".toList := by
  have hparse : Url.parse "http://v/" = .ok exampleClient.base := rfl
  have hplain : SecretPath.IsPlain "a//b ?é/%2f/".toList := by decide +kernel
  have hdots : ∀ piece ∈ "a//b ?é/%2f/".toList.splitOn '/', ¬ Segment.IsDotSegment piece := by
    decide +kernel
  obtain ⟨-, -, -, hwire, -⟩ := wire_path_exact hparse rfl hplain hdots
  refine ⟨hparse, rfl, hplain, hdots, hwire.trans ?_⟩
  decide +kernel

end Client

end SecretClient
