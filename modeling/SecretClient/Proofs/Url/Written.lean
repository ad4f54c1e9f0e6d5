import SecretClient.Proofs.Text.Digit
import SecretClient.Proofs.Url.Host
import SecretClient.Proofs.Url.Scheme
import SecretClient.Proofs.Url.Segment

/-!
# URLs in their written form

A URL that was read for a scheme with a known port has all its parts in their written form
(`IsWritten`), and its text is cut into these parts again, whatever host stands among them.

* `isWritten_of_parse` : a URL that was read is in its written form
* `parse_text` : its text is read as the URL, unless a label of its host is too long
* `parse_charsWith` : a text with the parts of such a URL around any text of a host is read as the URL
  with that host, or fails as the host does
-/

namespace SecretClient.Url

/-! ## Written forms -/

/-- A URL with an authority in its written form, but for the host: each part is as it is when it is
written and read, and holds no mark that ends it. -/
structure IsWritten (u : Url) (a : Authority) : Prop where
  scheme : IsScheme u.scheme
  kind : kindOf u.scheme = .special
  authority : u.authority = some a
  username : ∀ c ∈ a.username, EncodeSet.userinfo c = false
  password : ∀ c ∈ a.password, EncodeSet.userinfo c = false
  port : ∀ p, a.port = some p → p ≤ 65535 ∧ knownPort? u.scheme ≠ some p
  guarded : u.guarded = false
  path : ∃ segments, u.path = .rooted segments ∧ segments ≠ [] ∧
    ∀ s ∈ segments, Segment.IsSegment s
  query : ∀ t, u.query = some t → ∀ c ∈ t, EncodeSet.query true c = false
  fragment : ∀ t, u.fragment = some t → ∀ c ∈ t, EncodeSet.fragment c = false

/-- The text of a URL with another text in the place of its host. -/
def charsWith (u : Url) (a : Authority) (host : List Char) : List Char :=
  u.scheme.toList ++ ':' :: '/' :: '/' :: (userinfoText a ++ (host ++ portText a.port) ++
    pathText u.path ++ (markedText '?' u.query ++ markedText '#' u.fragment))

theorem chars_eq {u : Url} {a : Authority} (h : IsWritten u a) :
    u.chars = u.charsWith a a.host.text := by
  unfold chars charsWith
  rw [h.authority, h.guarded, authorityText]
  simp [List.append_assoc]

/-! ## What the parts are made of -/

theorem toNat_lt_of_not_control {c : Char} (h : EncodeSet.control c = false) : c.toNat < 0x80 := by
  simp only [EncodeSet.control, Bool.or_eq_false_iff, decide_eq_false_iff_not] at h
  omega

/-- What holds of all ASCII characters outside a set that has all others. -/
theorem of_not_mem {set : Char → Bool} {P : Char → Prop}
    (hall : ∀ n < 0x80, set (Char.ofNat n) = false → P (Char.ofNat n)) {c : Char}
    (h : set c = false) (hcontrol : EncodeSet.control c = false) : P c :=
  Pieces.of_ascii (P := fun c => set c = false → P c) hall (toNat_lt_of_not_control hcontrol) h

theorem userinfo_plain {c : Char} (h : EncodeSet.userinfo c = false) :
    0x20 < c.toNat ∧ c ∉ ['/', '\\', '?', '#', '@', ':'] := by
  refine of_not_mem (P := fun c => 0x20 < c.toNat ∧ c ∉ ['/', '\\', '?', '#', '@', ':'])
    (by decide +kernel) h ?_
  simp only [EncodeSet.userinfo, EncodeSet.path, EncodeSet.fragment, Bool.or_eq_false_iff] at h
  exact h.1.1.1

theorem path_plain {c : Char} (h : EncodeSet.path c = false) : 0x20 < c.toNat ∧ c ∉ ['?', '#'] := by
  refine of_not_mem (P := fun c => 0x20 < c.toNat ∧ c ∉ ['?', '#']) (by decide +kernel) h ?_
  simp only [EncodeSet.path, EncodeSet.fragment, Bool.or_eq_false_iff] at h
  exact h.1.1

theorem query_plain {c : Char} (h : EncodeSet.query true c = false) : 0x20 < c.toNat ∧ c ≠ '#' := by
  refine of_not_mem (P := fun c => 0x20 < c.toNat ∧ c ≠ '#') (by decide +kernel) h ?_
  simp only [EncodeSet.query, Bool.or_eq_false_iff] at h
  exact h.1.1

theorem fragment_plain {c : Char} (h : EncodeSet.fragment c = false) : 0x20 < c.toNat := by
  refine of_not_mem (P := fun c => 0x20 < c.toNat) (by decide +kernel) h ?_
  simp only [EncodeSet.fragment, Bool.or_eq_false_iff] at h
  exact h.1

/-! ## Cutting a text at its marks -/

section

variable {mark : Char} {front : List Char} {part : Option (List Char)}

theorem takeWhile_marked (h : ∀ c ∈ front, c ≠ mark) :
    (front ++ markedText mark part).takeWhile (· ≠ mark) = front := by
  have hfront : ∀ c ∈ front, decide (c ≠ mark) = true := fun c hc => decide_eq_true (h c hc)
  cases part with
  | none => rw [markedText, List.append_nil, Pieces.takeWhile_eq_self hfront]
  | some t => exact Pieces.takeWhile_append_cons hfront (by simp)

theorem behind_marked (h : ∀ c ∈ front, c ≠ mark) :
    behind mark (front ++ markedText mark part) = part := by
  have hfront : ∀ c ∈ front, decide (c ≠ mark) = true := fun c hc => decide_eq_true (h c hc)
  unfold behind
  cases part with
  | none =>
    rw [markedText, List.append_nil, List.dropWhile_eq_nil_iff.mpr hfront]
  | some t =>
    rw [markedText, Pieces.dropWhile_append_cons hfront (by simp)]

end

theorem map_encode_eq_self {set : Char → Bool} {part : Option (List Char)}
    (h : ∀ t, part = some t → ∀ c ∈ t, set c = false) : part.map (Percent.encode set) = part := by
  cases part with
  | none => rfl
  | some t => rw [Option.map_some, Percent.encode_eq_self (h t rfl)]

theorem mem_markedText {mark c : Char} {part : Option (List Char)} (h : c ∈ markedText mark part) :
    c = mark ∨ ∃ t, part = some t ∧ c ∈ t := by
  cases part with
  | none => cases h
  | some t =>
    rcases List.mem_cons.mp h with h | h
    · exact Or.inl h
    · exact Or.inr ⟨t, rfl, h⟩

/-- Query and fragment in their written form are cut off as they are. -/
theorem tail_of_marked {front : List Char} {query fragment : Option (List Char)}
    (hfront : ∀ c ∈ front, c ∉ ['?', '#'])
    (hquery : ∀ t, query = some t → ∀ c ∈ t, EncodeSet.query true c = false)
    (hfragment : ∀ t, fragment = some t → ∀ c ∈ t, EncodeSet.fragment c = false) :
    Tail.of true (front ++ (markedText '?' query ++ markedText '#' fragment))
      = ⟨front, query, fragment⟩ := by
  have hmark : ∀ c ∈ front, c ≠ '?' := by
    rintro c hc rfl
    exact hfront _ hc (by decide)
  have hhash : ∀ c ∈ front ++ markedText '?' query, c ≠ '#' := by
    rintro c hc rfl
    rcases List.mem_append.mp hc with hc | hc
    · exact hfront _ hc (by decide)
    · rcases mem_markedText hc with heq | ⟨t, ht, hc⟩
      · exact absurd heq (by decide)
      · exact (query_plain (hquery t ht _ hc)).2 rfl
  unfold Tail.of
  dsimp only
  rw [← List.append_assoc, takeWhile_marked hhash, takeWhile_marked hmark, behind_marked hhash,
    behind_marked hmark, map_encode_eq_self hquery, map_encode_eq_self hfragment]

/-! ## Host and port -/

theorem isDigit_of_mem_text {p : Nat} {c : Char} (h : c ∈ Digit.text 10 p) : c.isDigit = true :=
  Nat.isDigit_of_mem_toDigits (by decide) (by decide) h

theorem plain_of_mem_portText {port : Option Nat} {c : Char} (h : c ∈ portText port) :
    0x20 < c.toNat ∧ c ∉ ['/', '\\', '?', '#', '@'] := by
  have hall : ∀ d < 10, 0x20 < (Nat.digitChar d).toNat ∧
      Nat.digitChar d ∉ ['/', '\\', '?', '#', '@'] := by decide
  cases port with
  | none => cases h
  | some p =>
    rcases List.mem_cons.mp h with rfl | h
    · decide
    · obtain ⟨d, hd, rfl⟩ := Digit.exists_of_mem_text (by decide) h
      exact hall d hd

theorem readPort_text {scheme : String} {p : Nat} (hle : p ≤ 65535)
    (hknown : knownPort? scheme ≠ some p) :
    readPort scheme (Digit.text 10 p) = .ok (some p, []) := by
  have hdigits : (Digit.text 10 p).takeWhile Char.isDigit = Digit.text 10 p :=
    Pieces.takeWhile_eq_self fun c hc => isDigit_of_mem_text hc
  have hne : (Digit.text 10 p).isEmpty = false := by
    rw [List.isEmpty_eq_false_iff]
    exact Digit.text_ne_nil 10 p
  unfold readPort
  dsimp only
  rw [hdigits, List.drop_length, Digit.read?_text (by decide) (by decide), Option.getD_some,
    if_neg (Nat.not_lt.mpr hle), hne]
  simp [hknown]

/-- **A host and a port in their written form are read as the host is.** -/
theorem readHostPort_text {scheme : String} (hkind : kindOf scheme = .special) {port : Option Nat}
    (hport : ∀ p, port = some p → p ≤ 65535 ∧ knownPort? scheme ≠ some p) {host : List Char}
    (hhost : IsHostText host) :
    readHostPort scheme (host ++ portText port) = (Host.read host).map fun h => (h, port, []) := by
  have hspan : hostSpan false (host ++ portText port) = (host, portText port) := by
    refine hhost.span _ fun c hc => ?_
    cases port with
    | none => cases hc
    | some p => exact (Option.some.inj hc).symm
  have hne : host.isEmpty = false := by
    rw [List.isEmpty_eq_false_iff]
    exact hhost.ne_nil
  unfold readHostPort
  rw [hspan]
  dsimp only
  rw [hkind, hne]
  cases Host.read host with
  | error e => simp [SchemeKind.isSpecial, Except.map, bind, Except.bind]
  | ok h =>
    cases port with
    | none => simp [SchemeKind.isSpecial, Except.map, bind, Except.bind, portText]
    | some p =>
      obtain ⟨hle, hknown⟩ := hport p rfl
      simp [SchemeKind.isSpecial, Except.map, bind, Except.bind, portText,
        readPort_text hle hknown]

/-! ## Authorities -/

/-- User name and password as they stand in front of the `@`. -/
def userinfo (a : Authority) : List Char :=
  a.username ++ markedText ':' (if a.password.isEmpty then none else some a.password)

theorem userinfoText_eq (a : Authority) :
    userinfoText a = if (userinfo a).isEmpty then [] else userinfo a ++ ['@'] := by
  unfold userinfoText userinfo
  cases a.username <;> cases a.password <;> simp [markedText]

theorem plain_of_mem_userinfo {a : Authority}
    (husername : ∀ c ∈ a.username, EncodeSet.userinfo c = false)
    (hpassword : ∀ c ∈ a.password, EncodeSet.userinfo c = false) :
    ∀ c ∈ userinfo a, 0x20 < c.toNat ∧ c ∉ ['/', '\\', '?', '#', '@'] := by
  intro c hc
  have hless : ∀ {c : Char}, EncodeSet.userinfo c = false →
      0x20 < c.toNat ∧ c ∉ ['/', '\\', '?', '#', '@'] := fun h =>
    ⟨(userinfo_plain h).1, fun hmem => (userinfo_plain h).2 (List.mem_append_left [':'] hmem)⟩
  rcases List.mem_append.mp hc with hc | hc
  · exact hless (husername c hc)
  · rcases mem_markedText hc with rfl | ⟨t, ht, hc⟩
    · decide
    · obtain ⟨-, ht⟩ := Option.ite_none_left_eq_some.mp ht
      cases ht
      exact hless (hpassword c hc)

/-- User name and password are what they were. -/
theorem parts_of_userinfo {a : Authority}
    (husername : ∀ c ∈ a.username, EncodeSet.userinfo c = false)
    (hpassword : ∀ c ∈ a.password, EncodeSet.userinfo c = false) :
    Percent.encode EncodeSet.userinfo ((userinfo a).takeWhile (· ≠ ':')) = a.username ∧
      Percent.encode EncodeSet.userinfo ((behind ':' (userinfo a)).getD []) = a.password := by
  have hcolon : ∀ c ∈ a.username, c ≠ ':' := by
    rintro c hc rfl
    exact (userinfo_plain (husername _ hc)).2 (by decide)
  unfold userinfo
  rw [takeWhile_marked hcolon, behind_marked hcolon]
  refine ⟨Percent.encode_eq_self husername, ?_⟩
  cases hp : a.password with
  | nil => rfl
  | cons c password =>
    rw [hp] at hpassword
    exact Percent.encode_eq_self hpassword

/-- The last `@` of an authority is the one behind user name and password. -/
theorem cut_userinfo {a : Authority} {hostPort : List Char}
    (hat : ∀ c ∈ hostPort, c ≠ '@') :
    ((userinfoText a ++ hostPort).reverse.takeWhile (· ≠ '@')).reverse = hostPort ∧
      (userinfoText a ++ hostPort).take
        ((userinfoText a ++ hostPort).length - hostPort.length - 1) = userinfo a := by
  have hplain : ∀ c ∈ hostPort, decide (c ≠ '@') = true := fun c hc => decide_eq_true (hat c hc)
  rw [userinfoText_eq]
  split
  · next hempty =>
    rw [List.nil_append, List.isEmpty_iff.mp hempty]
    refine ⟨?_, by simp⟩
    rw [Pieces.takeWhile_eq_self fun c hc => hplain c (List.mem_reverse.mp hc),
      List.reverse_reverse]
  · rw [List.append_assoc, List.singleton_append]
    refine ⟨Pieces.takeWhile_reverse_append_cons hplain (by decide), ?_⟩
    rw [List.take_left']
    simp only [List.length_append, List.length_cons]
    omega

/-- **An authority in its written form is read as it is, with the host that stands in it.** -/
theorem readAuthority_text {scheme : String} (hkind : kindOf scheme = .special) {a : Authority}
    (husername : ∀ c ∈ a.username, EncodeSet.userinfo c = false)
    (hpassword : ∀ c ∈ a.password, EncodeSet.userinfo c = false)
    (hport : ∀ p, a.port = some p → p ≤ 65535 ∧ knownPort? scheme ≠ some p) {host : List Char}
    (hhost : IsHostText host) (followed : Bool) :
    readAuthority scheme (userinfoText a ++ (host ++ portText a.port)) followed
      = (Host.read host).map fun h => ({ a with host := h }, []) := by
  have hat : ∀ c ∈ host ++ portText a.port, c ≠ '@' := by
    rintro c hc rfl
    rcases List.mem_append.mp hc with hc | hc
    · exact (hhost.plain _ hc).2 (by decide)
    · exact (plain_of_mem_portText hc).2 (by decide)
  obtain ⟨hhostPort, huserinfo⟩ := cut_userinfo (a := a) hat
  obtain ⟨hname, hword⟩ := parts_of_userinfo husername hpassword
  have hne : (host ++ portText a.port).isEmpty = false := by
    rw [List.isEmpty_eq_false_iff, ne_eq, List.append_eq_nil_iff]
    exact fun hnil => hhost.ne_nil hnil.1
  unfold readAuthority
  dsimp only
  rw [hhostPort, huserinfo, hname, hword, hne, readHostPort_text hkind hport hhost]
  cases hread : Host.read host with
  | error e => simp [Except.map, bind, Except.bind]
  | ok h => simp [Except.map, bind, Except.bind, (Host.isRead_of_read hread).isEmpty]

/-! ## URLs -/

section

variable {u : Url} {a : Authority} {host : List Char}

/-- What stands between the slashes of the authority and the path. -/
theorem plain_of_mem_authority (h : IsWritten u a) (hhost : IsHostText host) :
    ∀ c ∈ userinfoText a ++ (host ++ portText a.port),
      0x20 < c.toNat ∧ c ∉ ['/', '\\', '?', '#'] := by
  have hless : ∀ {c : Char}, 0x20 < c.toNat ∧ c ∉ ['/', '\\', '?', '#', '@'] →
      0x20 < c.toNat ∧ c ∉ ['/', '\\', '?', '#'] := fun hc =>
    ⟨hc.1, fun hmem => hc.2 (List.mem_append_left ['@'] hmem)⟩
  intro c hc
  rcases List.mem_append.mp hc with hc | hc
  · rw [userinfoText_eq] at hc
    split at hc
    · cases hc
    · rcases List.mem_append.mp hc with hc | hc
      · exact hless (plain_of_mem_userinfo h.username h.password c hc)
      · rw [List.mem_singleton.mp hc]
        decide
  · rcases List.mem_append.mp hc with hc | hc
    · exact hless (hhost.plain c hc)
    · exact hless (plain_of_mem_portText hc)

theorem plain_of_mem_pathText {segments : List (List Char)}
    (h : ∀ s ∈ segments, Segment.IsSegment s) :
    ∀ c ∈ Segment.text segments, 0x20 < c.toNat ∧ c ∉ ['?', '#'] := by
  intro c hc
  obtain ⟨s, hs, hc⟩ := List.mem_flatMap.mp hc
  rcases List.mem_cons.mp hc with rfl | hc
  · decide
  · exact path_plain ((h s hs).chars c hc).1

/-- Everything in front of query and fragment is kept in front of them. -/
theorem tail_of_written (h : IsWritten u a) (hhost : IsHostText host) :
    Tail.of true (userinfoText a ++ (host ++ portText a.port) ++ pathText u.path ++
        (markedText '?' u.query ++ markedText '#' u.fragment))
      = ⟨userinfoText a ++ (host ++ portText a.port) ++ pathText u.path, u.query, u.fragment⟩ := by
  refine tail_of_marked (fun c hc hmem => ?_) h.query h.fragment
  rcases List.mem_append.mp hc with hc | hc
  · exact (plain_of_mem_authority h hhost c hc).2 (List.mem_append_right ['/', '\\'] hmem)
  · obtain ⟨segments, hpath, -, hsegments⟩ := h.path
    rw [hpath] at hc
    exact (plain_of_mem_pathText hsegments c hc).2 hmem

/-- **Behind its slashes a URL in its written form is read as it is, with the host that stands in
it.** -/
theorem afterSlashes_text (h : IsWritten u a) (hhost : IsHostText host) :
    afterSlashes u.scheme (userinfoText a ++ (host ++ portText a.port) ++ pathText u.path ++
        (markedText '?' u.query ++ markedText '#' u.fragment))
      = (Host.read host).map fun h => { u with authority := some { a with host := h } } := by
  obtain ⟨segments, hpath, hne, hsegments⟩ := h.path
  have hname : ∀ c ∈ userinfoText a ++ (host ++ portText a.port),
      (!SchemeKind.special.separates c) = true := by
    intro c hc
    have hplain := (plain_of_mem_authority h hhost c hc).2
    simp only [List.mem_cons, not_or] at hplain
    simp [SchemeKind.separates, SchemeKind.isSpecial, hplain.1, hplain.2.1]
  obtain ⟨rest, hrest⟩ : ∃ rest, Segment.text segments = '/' :: rest := by
    obtain ⟨s, segments, rfl⟩ := List.exists_cons_of_ne_nil hne
    exact ⟨s ++ Segment.text segments, by rw [Segment.text, List.flatMap_cons]; rfl⟩
  have htake : (userinfoText a ++ (host ++ portText a.port) ++ Segment.text segments).takeWhile
      (!SchemeKind.special.separates ·) = userinfoText a ++ (host ++ portText a.port) := by
    rw [hrest]
    exact Pieces.takeWhile_append_cons hname (by decide)
  unfold afterSlashes
  dsimp only
  rw [h.kind, show SchemeKind.special.isSpecial = true from rfl, tail_of_written h hhost]
  dsimp only [pathText]
  rw [hpath]
  dsimp only [pathText]
  rw [htake, List.drop_left, readAuthority_text h.kind h.username h.password h.port hhost]
  cases Host.read host with
  | error e => rfl
  | ok hostRead =>
    simp only [Except.map, bind, Except.bind, List.nil_append, Bool.true_or, if_true]
    rw [Segment.rootedAt_text hne hsegments]
    obtain ⟨scheme, authority, guarded, path, query, fragment⟩ := u
    obtain rfl : guarded = false := h.guarded
    obtain rfl : path = .rooted segments := hpath
    rfl

/-! ## Texts -/

/-- A text without blanks and controls is read as it is. -/
theorem prepared_of_visible {text : List Char} (h : ∀ c ∈ text, 0x20 < c.toNat) :
    prepared text = text := by
  have hblank : ∀ c ∈ text, decide (c.toNat ≤ 0x20) = false := by
    intro c hc
    simpa using h c hc
  unfold prepared
  dsimp only
  rw [dropWhile_of_forall_not hblank,
    dropWhile_of_forall_not fun c hc => hblank c (List.mem_reverse.mp hc), List.reverse_reverse,
    stripped_of_visible h]

theorem visible_of_mem_charsWith (h : IsWritten u a) (hhost : IsHostText host) :
    ∀ c ∈ u.charsWith a host, 0x20 < c.toNat := by
  obtain ⟨segments, hpath, -, hsegments⟩ := h.path
  have hmarked : ∀ c ∈ markedText '?' u.query ++ markedText '#' u.fragment, 0x20 < c.toNat := by
    intro c hc
    rcases List.mem_append.mp hc with hc | hc
    · rcases mem_markedText hc with rfl | ⟨t, ht, hc⟩
      · decide
      · exact (query_plain (h.query t ht c hc)).1
    · rcases mem_markedText hc with rfl | ⟨t, ht, hc⟩
      · decide
      · exact fragment_plain (h.fragment t ht c hc)
  unfold charsWith
  intro c hc
  rcases List.mem_append.mp hc with hc | hc
  · have hchar := isSchemeChar_iff.mp (h.scheme.chars c hc).1
    omega
  · simp only [List.mem_cons] at hc
    rcases hc with rfl | rfl | rfl | hc
    · decide
    · decide
    · decide
    · rcases List.mem_append.mp hc with hc | hc
      · rcases List.mem_append.mp hc with hc | hc
        · exact (plain_of_mem_authority h hhost c hc).1
        · rw [hpath] at hc
          exact (plain_of_mem_pathText hsegments c hc).1
      · exact hmarked c hc

/-- **A text with the parts of a URL in its written form around any text of a host is read as the URL
with that host, or fails as the host does.** -/
theorem parse_charsWith (h : IsWritten u a) (hhost : IsHostText host) :
    parse (String.ofList (u.charsWith a host))
      = (Host.read host).map fun h => { u with authority := some { a with host := h } } := by
  have hslashes : ∀ rest, ('/' :: '/' :: (userinfoText a ++ (host ++ portText a.port) ++ rest)).dropWhile
      SchemeKind.special.separates = userinfoText a ++ (host ++ portText a.port) ++ rest := by
    intro rest
    obtain ⟨c, name, hname⟩ : ∃ c name, userinfoText a ++ (host ++ portText a.port) = c :: name := by
      refine List.exists_cons_of_ne_nil fun hnil => hhost.ne_nil ?_
      exact (List.append_eq_nil_iff.mp (List.append_eq_nil_iff.mp hnil).2).1
    have hc := (plain_of_mem_authority h hhost c (hname ▸ List.mem_cons_self)).2
    simp only [List.mem_cons, not_or] at hc
    rw [List.dropWhile_cons_of_pos (by decide), List.dropWhile_cons_of_pos (by decide), hname,
      List.cons_append, List.dropWhile_cons_of_neg]
    simp [SchemeKind.separates, SchemeKind.isSpecial, hc.1, hc.2.1]
  rw [parse, String.toList_ofList, prepared_of_visible (visible_of_mem_charsWith h hhost), charsWith,
    scheme?_of_isScheme h.scheme]
  dsimp only
  rw [afterScheme, h.kind]
  dsimp only
  rw [List.append_assoc, hslashes, ← List.append_assoc, afterSlashes_text h hhost]

/-- **The text of a URL in its written form is read as the URL, unless a label of its host is too
long.** -/
theorem parse_text (h : IsWritten u a) (hread : a.host.IsRead) :
    parse u.text = if a.host.IsShort then .ok u else .error .badDomainName := by
  have hu : { u with authority := some a } = u := by rw [← h.authority]
  rw [text, chars_eq h, parse_charsWith h hread.isHostText, hread.read_text]
  split
  · exact congrArg Except.ok hu
  · rfl

end

/-! ## What is read -/

theorem readPort_ok {scheme : String} {text rest : List Char} {port : Option Nat}
    (h : readPort scheme text = .ok (port, rest)) :
    ∀ p, port = some p → p ≤ 65535 ∧ knownPort? scheme ≠ some p := by
  unfold readPort at h
  dsimp only at h
  split at h
  · cases h
  · next hle =>
    split at h
    · cases h
      intro p hp
      obtain ⟨hgiven, heq⟩ := Option.ite_none_left_eq_some.mp hp
      cases heq
      simp only [Bool.or_eq_true, decide_eq_true_eq, not_or] at hgiven
      exact ⟨Nat.le_of_not_lt hle, hgiven.2⟩
    · cases h

theorem readHostPort_ok {scheme : String} (hkind : kindOf scheme = .special) {text rest : List Char}
    {host : Host} {port : Option Nat} (h : readHostPort scheme text = .ok (host, port, rest)) :
    host.IsRead ∧ ∀ p, port = some p → p ≤ 65535 ∧ knownPort? scheme ≠ some p := by
  unfold readHostPort at h
  rw [hkind] at h
  dsimp only [SchemeKind.isSpecial] at h
  split at h
  · cases h
  · rw [if_pos rfl] at h
    simp only [bind, Except.bind] at h
    split at h
    · cases h
    · next hostRead hhost =>
      split at h
      · cases h
        exact ⟨Host.isRead_of_read hhost, fun p hp => by cases hp⟩
      · split at h
        · cases h
        · next portRead hport =>
          cases h
          exact ⟨Host.isRead_of_read hhost, readPort_ok hport⟩

theorem userinfo_false_of_mem_escapes : ∀ c ∈ Percent.escapes, EncodeSet.userinfo c = false :=
  Pieces.forall_mem_of_all (by decide)

theorem readAuthority_ok {scheme : String} (hkind : kindOf scheme = .special) {text rest : List Char}
    {followed : Bool} {a : Authority} (h : readAuthority scheme text followed = .ok (a, rest)) :
    (∀ c ∈ a.username, EncodeSet.userinfo c = false) ∧
      (∀ c ∈ a.password, EncodeSet.userinfo c = false) ∧ a.host.IsRead ∧
      ∀ p, a.port = some p → p ≤ 65535 ∧ knownPort? scheme ≠ some p := by
  unfold readAuthority at h
  dsimp only at h
  split at h
  · cases h
  · simp only [bind, Except.bind] at h
    split at h
    · cases h
    · next parts hparts =>
      split at h
      · cases h
      · cases h
        obtain ⟨hhost, hport⟩ := readHostPort_ok hkind hparts
        exact ⟨Percent.not_mem_of_mem_encode userinfo_false_of_mem_escapes,
          Percent.not_mem_of_mem_encode userinfo_false_of_mem_escapes, hhost, hport⟩

theorem afterSlashes_ok {scheme : String} (hscheme : IsScheme scheme)
    (hkind : kindOf scheme = .special) {text : List Char} {u : Url}
    (h : afterSlashes scheme text = .ok u) : ∃ a, IsWritten u a ∧ a.host.IsRead := by
  unfold afterSlashes at h
  rw [hkind] at h
  dsimp only [SchemeKind.isSpecial] at h
  simp only [bind, Except.bind] at h
  split at h
  · cases h
  · next parts hparts =>
    cases h
    obtain ⟨husername, hpassword, hhost, hport⟩ := readAuthority_ok hkind hparts
    refine ⟨_, ⟨hscheme, hkind, rfl, husername, hpassword, hport, rfl, ⟨_, rfl, ?_, ?_⟩, ?_, ?_⟩, hhost⟩
    · exact Segment.rootedAt_ne_nil _
    · exact Segment.isSegment_of_mem_rootedAt _
    · intro t ht
      obtain ⟨t', -, rfl⟩ := Option.map_eq_some_iff.mp ht
      exact Percent.not_mem_of_mem_encode (Pieces.forall_mem_of_all (by decide))
    · intro t ht
      obtain ⟨t', -, rfl⟩ := Option.map_eq_some_iff.mp ht
      exact Percent.not_mem_of_mem_encode (Pieces.forall_mem_of_all (by decide))

/-- **A URL that was read is in its written form**, if its scheme has a known port. -/
theorem isWritten_of_parse {text : String} {u : Url} (h : parse text = .ok u)
    (hkind : u.kind = .special) : ∃ a, IsWritten u a ∧ a.host.IsRead := by
  have hscheme := isScheme_of_parse h
  unfold parse at h
  split at h
  · next scheme rest hname =>
    have heq := afterScheme_scheme h
    rw [kind, heq] at hkind
    rw [heq] at hscheme
    rw [afterScheme, hkind] at h
    exact afterSlashes_ok hscheme hkind h
  · cases h

/-- Another path leaves the other parts as they are. -/
theorem IsWritten.withPath {u : Url} {a : Authority} (h : IsWritten u a) (path : String) :
    IsWritten (u.withPath path) a := by
  obtain ⟨segments, hpath, -, -⟩ := h.path
  have hkind : u.kind = .special := h.kind
  unfold Url.withPath
  rw [hpath]
  dsimp only
  rw [hkind]
  exact ⟨h.scheme, h.kind, h.authority, h.username, h.password, h.port, h.guarded,
    ⟨_, rfl, Segment.rootedAt_ne_nil _, Segment.isSegment_of_mem_rootedAt _⟩, h.query, h.fragment⟩

end SecretClient.Url
