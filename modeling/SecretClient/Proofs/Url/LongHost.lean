import SecretClient.Proofs.Unicode.Ideograph
import SecretClient.Proofs.Url.Ascending
import SecretClient.Proofs.Url.Written

/-!
# A host that cannot be read again

A label is encoded if it has up to a thousand characters, and decoded if its encoding has up to two
thousand. `longLabel` lies between these bounds: eight hundred ideographs that take more than two
thousand digits. The URL of its host is read once, and its text is no URL.

* `parse_longAddress` : the address with this host is a URL
* `not_isShort_longName` : the host is too long to be read again
-/

namespace SecretClient

open Unicode

/-! ## Names of ideographs -/

namespace Domain

/-- Joiners are the only characters that have to fit between their neighbours. -/
theorem joinersFit_of_ne {before label : List Char}
    (h : ∀ c ∈ label, c.toNat ≠ 0x200C ∧ c.toNat ≠ 0x200D) : joinersFit before label = true := by
  induction label generalizing before with
  | nil => rfl
  | cons c label ih =>
    obtain ⟨hnon, hjoiner⟩ := h c List.mem_cons_self
    unfold joinersFit
    rw [ih fun d hd => h d (List.mem_cons_of_mem _ hd)]
    simp [hnon, hjoiner]

variable {label : List Char}

theorem not_isAscii_of_isIdeograph {c : Char} (h : IsIdeograph c.toNat) : isAscii c = false := by
  have hlow := h.1
  exact decide_eq_false (by omega)

theorem not_all_isAscii (hne : label ≠ []) (h : ∀ c ∈ label, IsIdeograph c.toNat) :
    label.all isAscii = false := by
  obtain ⟨c, rest, rfl⟩ := List.exists_cons_of_ne_nil hne
  rw [List.all_cons, not_isAscii_of_isIdeograph (h c List.mem_cons_self), Bool.false_and]

theorem isWide_of_isIdeograph (hne : label ≠ []) (h : ∀ c ∈ label, IsIdeograph c.toNat) :
    isWide label = true := by
  have hkept : label.all isKept = true := by
    refine List.all_eq_true.mpr fun c hc => ?_
    have hlow := (h c hc).1
    have hallowed : isDenied c = false := by
      refine Bool.eq_false_iff.mpr fun hdenied => ?_
      have hall : ∀ d ∈ ['%', '#', '/', ':', '<', '>', '?', '@', '[', '\\', ']', '^', '|'],
          d.toNat < 0x80 := Pieces.forall_mem_of_all (by decide)
      simp only [isDenied, Bool.or_eq_true, decide_eq_true_eq, beq_iff_eq,
        List.contains_iff_mem] at hdenied
      rcases hdenied with (hdenied | hdenied) | hdenied
      · omega
      · omega
      · have hascii := hall c hdenied
        omega
    rw [isKept, mapping_of_isIdeograph (h c hc), hallowed]
    rfl
  have hmark : label.head?.any isMark = false := by
    obtain ⟨c, rest, rfl⟩ := List.exists_cons_of_ne_nil hne
    exact not_isMark_of_isIdeograph (h c List.mem_cons_self)
  have hjoiners : joinersFit [] label = true := by
    refine joinersFit_of_ne fun c hc => ?_
    have hlow := (h c hc).1
    omega
  have hnormal : normalForm label = label :=
    normalForm_of_inert fun c hc => inert_of_isIdeograph (h c hc)
  rw [isWide, not_all_isAscii hne h, isValid, hkept, hmark, hjoiners, hnormal, beq_self_eq_true]
  rfl

theorem label?_of_isIdeograph (hne : label ≠ []) (h : ∀ c ∈ label, IsIdeograph c.toNat)
    (hlength : label.length ≤ 1000) :
    label? label = some ⟨['x', 'n', '-', '-'] ++ Punycode.encode label, label⟩ := by
  have hencoded : ¬ isEncoded label = true := by
    intro hencoded
    have hx : 'x' ∈ label.take 4 := beq_iff_eq.mp hencoded ▸ List.mem_cons_self
    have hlow := (h 'x' (List.mem_of_mem_take hx)).1
    exact absurd hlow (by decide)
  have hvalid : (isWide label && decide (label.length ≤ 1000)) = true := by
    rw [isWide_of_isIdeograph hne h, decide_eq_true hlength]
    rfl
  rw [label?, if_neg hencoded, not_all_isAscii hne h, if_neg Bool.false_ne_true, if_pos hvalid]

/-- **A name of ideographs is encoded as one label**, if they are not more than a thousand. -/
theorem ascii?_of_isIdeograph (hne : label ≠ []) (h : ∀ c ∈ label, IsIdeograph c.toNat)
    (hlength : label.length ≤ 1000) :
    ascii? label = some (['x', 'n', '-', '-'] ++ Punycode.encode label) := by
  have hmapped : mapped? label = some label := mapped?_of_kept fun c hc => mapping_of_isIdeograph (h c hc)
  have hnormal : normalForm label = label :=
    normalForm_of_inert fun c hc => inert_of_isIdeograph (h c hc)
  have hdot : '.' ∉ label := fun hdot => absurd (h '.' hdot).1 (by decide)
  have hturns : label.any turns = false := by
    rw [List.any_eq_false]
    intro c hc
    rw [turns, direction_of_isIdeograph (h c hc)]
    decide
  have hread : [label].mapM label? = some [⟨['x', 'n', '-', '-'] ++ Punycode.encode label, label⟩] := by
    rw [Utf8.mapM_eq_some_iff, List.map_singleton, label?_of_isIdeograph hne h hlength]
    rfl
  unfold ascii? labels?
  rw [hmapped, Option.bind_eq_bind, Option.bind_some]
  dsimp only
  rw [not_all_isAscii hne h, if_neg Bool.false_ne_true, hnormal, List.splitOn_eq_singleton hdot,
    hread, Option.bind_eq_bind, Option.bind_some, List.any_cons, List.any_nil, Bool.or_false,
    hturns, Bool.false_and, if_neg Bool.false_ne_true, Option.map_some, List.map_singleton,
    List.intercalate_singleton]

end Domain

/-! ## The label -/

/-- Eight hundred ideographs, twenty code points apart. -/
def longLabel : List Char := (List.range 800).map fun i => Char.ofNat (0x4E00 + 20 * i)

theorem toNat_of_longLabel {i : Nat} (hi : i < 800) :
    (Char.ofNat (0x4E00 + 20 * i)).toNat = 0x4E00 + 20 * i :=
  Utf8.toNat_ofNat_char (by omega)

theorem map_toNat_longLabel :
    longLabel.map Char.toNat = (List.range 800).map fun i => 0x4E00 + 20 * i := by
  unfold longLabel
  rw [List.map_map]
  exact List.map_congr_left fun i hi => toNat_of_longLabel (List.mem_range.mp hi)

theorem longLabel_ne_nil : longLabel ≠ [] := by
  rw [longLabel, ne_eq, List.map_eq_nil_iff, List.range_eq_nil]
  decide

theorem isIdeograph_of_mem_longLabel : ∀ c ∈ longLabel, IsIdeograph c.toNat := by
  intro c hc
  obtain ⟨i, hi, rfl⟩ := List.mem_map.mp hc
  have hlt := List.mem_range.mp hi
  rw [toNat_of_longLabel hlt, IsIdeograph]
  omega

theorem ascends_longLabel : Punycode.Ascends longLabel := by
  refine ⟨fun c hc => ?_, ?_⟩
  · have hlow := (isIdeograph_of_mem_longLabel c hc).1
    omega
  · rw [← List.pairwise_map, map_toNat_longLabel, List.pairwise_map]
    exact List.pairwise_lt_range.imp fun hlt => by omega

theorem length_longLabel : longLabel.length = 800 := by
  rw [longLabel, List.length_map, List.length_range]

/-- The encoding of the label is longer than what is decoded. -/
theorem length_encode_longLabel : 2000 < (Punycode.encode longLabel).length := by
  rw [Punycode.encode_of_ascends ascends_longLabel]
  have hvalues : (0x80 :: longLabel.map Char.toNat).IsChain fun m n => m + 20 ≤ n := by
    rw [map_toNat_longLabel]
    refine (List.pairwise_cons.mpr ⟨fun n hn => ?_, ?_⟩).isChain
    · obtain ⟨i, -, rfl⟩ := List.mem_map.mp hn
      omega
    · rw [List.pairwise_map]
      exact List.pairwise_lt_range.imp fun hlt => by omega
  have hlength := @Punycode.length_climb 0x80 72 0 _ hvalues
  rw [List.length_map, length_longLabel] at hlength
  omega

/-! ## The host -/

/-- The label as it is encoded. -/
def longName : List Char := ['x', 'n', '-', '-'] ++ Punycode.encode longLabel

theorem ascii?_longLabel : Domain.ascii? longLabel = some longName :=
  Domain.ascii?_of_isIdeograph longLabel_ne_nil isIdeograph_of_mem_longLabel
    (by rw [length_longLabel]; decide)

theorem dot_not_mem_longName : '.' ∉ longName := by
  intro hdot
  rcases List.mem_append.mp hdot with hdot | hdot
  · exact absurd hdot (by decide)
  · rcases Punycode.mem_encode hdot with ⟨hdot, -⟩ | hdot | hdot
    · exact absurd (isIdeograph_of_mem_longLabel '.' hdot).1 (by decide)
    · exact absurd hdot (by decide)
    · exact Punycode.ne_dot_of_isDigit hdot rfl

/-- **The host is too long to be read again.** -/
theorem not_isShort_longName : ¬ Host.IsShort (.name longName) := by
  intro hshort
  have hlength := hshort longName (by
    rw [List.splitOn_eq_singleton dot_not_mem_longName]
    exact List.mem_singleton_self _) rfl
  rw [longName, List.length_append] at hlength
  have hlong := length_encode_longLabel
  simp only [List.length_cons, List.length_nil] at hlength
  omega

/-- The name is no number. -/
theorem not_isDue_longName : Ipv4.isDue longName = false := by
  obtain ⟨rest, hname⟩ : ∃ rest, longName = 'x' :: rest := ⟨_, rfl⟩
  have hparts : Ipv4.parts longName = [longName] := by
    unfold Ipv4.parts
    rw [List.splitOn_eq_singleton dot_not_mem_longName, hname]
    rfl
  have hnumber : Ipv4.number? ('x' :: rest) = none := by
    show (('x' :: rest).mapM (Digit.value? 10)).map (Digit.number 10) = none
    rw [List.mapM_cons]
    rfl
  unfold Ipv4.isDue
  rw [hparts, hname]
  dsimp only [List.getLast?_singleton]
  rw [hnumber]
  rfl

theorem read_longLabel : Host.read longLabel = .ok (.name longName) := by
  have hplain : ∀ c ∈ longLabel, c ≠ '[' ∧ c ≠ '%' := by
    intro c hc
    have hlow := (isIdeograph_of_mem_longLabel c hc).1
    refine ⟨?_, ?_⟩ <;> (rintro rfl; exact absurd hlow (by decide))
  rw [Host.read_of_plain hplain, ascii?_longLabel]
  dsimp only
  rw [Host.ofDomain, not_isDue_longName]
  rfl

/-- The URL of the host. -/
def longUrl : Url :=
  { scheme := "http", authority := some { host := .name longName }, path := .rooted [[]] }

/-- The address of the host, with the label as it is. -/
def longAddress : String := String.ofList ("http://".toList ++ longLabel ++ ['/'])

theorem host?_longUrl : longUrl.host? = some (.name longName) := by
  have hne : Host.isEmpty (.name longName) = false := rfl
  unfold Url.host? longUrl
  dsimp only
  rw [hne, if_neg Bool.false_ne_true]

theorem charsWith_longUrl (host : List Char) :
    longUrl.charsWith { host := .name longName } host = "http://".toList ++ host ++ ['/'] := by
  have hchars : longUrl.charsWith { host := .name longName } host
      = "http".toList ++ ':' :: '/' :: '/' :: (host ++ [] ++ ['/'] ++ []) := rfl
  have hfront : "http://".toList = "http".toList ++ [':', '/', '/'] := by decide
  rw [hchars, hfront]
  simp

/-- **The address is a URL.** -/
theorem parse_longAddress : Url.parse longAddress = .ok longUrl := by
  have hwritten : Url.IsWritten longUrl { host := .name longName } := by
    have hscheme : Url.IsScheme "http" :=
      ⟨⟨'h', ['t', 't', 'p'], by decide, by decide⟩, Pieces.forall_mem_of_all (by decide)⟩
    refine ⟨hscheme, by decide, rfl, List.forall_mem_nil _, List.forall_mem_nil _, ?_, rfl,
      ⟨[[]], rfl, by decide, ?_⟩, ?_, ?_⟩
    · intro p hp
      cases hp
    · exact List.forall_mem_singleton.mpr Segment.isSegment_nil
    · intro t ht
      cases ht
    · intro t ht
      cases ht
  have hhost : Url.IsHostText longLabel := by
    refine Url.isHostText_of_plain longLabel_ne_nil fun c hc => ?_
    have hlow := (isIdeograph_of_mem_longLabel c hc).1
    have hall : ∀ d ∈ ['/', '\\', '?', '#', '@', ':', '['], d.toNat < 0x80 :=
      Pieces.forall_mem_of_all (by decide)
    refine ⟨by omega, fun hmem => ?_⟩
    have hascii := hall c hmem
    omega
  have hparse := Url.parse_charsWith hwritten hhost
  rw [charsWith_longUrl, read_longLabel] at hparse
  exact hparse

end SecretClient
