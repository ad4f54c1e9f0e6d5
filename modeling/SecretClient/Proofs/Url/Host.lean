import SecretClient.Proofs.Url.Domain
import SecretClient.Proofs.Url.Ipv4
import SecretClient.Proofs.Url.Ipv6
import SecretClient.Url.Parse

/-!
# Hosts read again

* `IsRead.isHostText` : the text of a host that was read holds none of the marks around it in a URL
* `IsRead.read_text` : it is read as the host, unless a label of the host is too long
-/

namespace SecretClient

/-! ## Texts of hosts in a URL -/

/-- A text that stands for itself in the place of a host: it has no blanks and none of the marks that
end a host or an authority, and a colon in it stands between brackets. -/
structure Url.IsHostText (text : List Char) : Prop where
  ne_nil : text ≠ []
  plain : ∀ c ∈ text, 0x20 < c.toNat ∧ c ∉ ['/', '\\', '?', '#', '@']
  span : ∀ rest, (∀ c ∈ rest.head?, c = ':') → Url.hostSpan false (text ++ rest) = (text, rest)

namespace Url

theorem hostSpan_append {text rest : List Char} (h : ∀ c ∈ text, c ≠ ':' ∧ c ≠ '[') :
    hostSpan false (text ++ rest)
      = (text ++ (hostSpan false rest).1, (hostSpan false rest).2) := by
  induction text with
  | nil => rfl
  | cons c text ih =>
    obtain ⟨hcolon, hbracket⟩ := h c List.mem_cons_self
    rw [List.cons_append, hostSpan, if_neg fun hc => hcolon hc.1]
    have hinside : (c == '[' || (false && c != ']')) = false := by simp [hbracket]
    rw [hinside, ih fun d hd => h d (List.mem_cons_of_mem _ hd)]
    rfl

/-- Within brackets nothing is cut. -/
theorem hostSpan_inside {text rest : List Char} (h : ']' ∉ text) :
    hostSpan true (text ++ ']' :: rest)
      = (text ++ ']' :: (hostSpan false rest).1, (hostSpan false rest).2) := by
  induction text with
  | nil =>
    rw [List.nil_append, hostSpan, if_neg (by simp)]
    rfl
  | cons c text ih =>
    have hc : c ≠ ']' := fun heq => h (heq ▸ List.mem_cons_self)
    have hinside : (c == '[' || (true && c != ']')) = true := by simp [hc]
    rw [List.cons_append, hostSpan, if_neg (by simp), hinside,
      ih fun hmem => h (List.mem_cons_of_mem _ hmem)]
    rfl

/-- A port or nothing is left behind a host. -/
theorem hostSpan_behind {rest : List Char} (h : ∀ c ∈ rest.head?, c = ':') :
    hostSpan false rest = ([], rest) := by
  cases rest with
  | nil => rfl
  | cons c rest => rw [hostSpan, if_pos ⟨h c rfl, rfl⟩]

theorem isHostText_of_plain {text : List Char} (hne : text ≠ [])
    (h : ∀ c ∈ text, 0x20 < c.toNat ∧ c ∉ ['/', '\\', '?', '#', '@', ':', '[']) :
    IsHostText text := by
  refine ⟨hne, fun c hc => ⟨(h c hc).1, fun hmem => (h c hc).2 ?_⟩, fun rest hrest => ?_⟩
  · exact List.mem_append_left [':', '['] hmem
  · rw [hostSpan_append, hostSpan_behind hrest, List.append_nil]
    intro c hc
    refine ⟨?_, ?_⟩
    · rintro rfl
      exact (h _ hc).2 (by decide)
    · rintro rfl
      exact (h _ hc).2 (by decide)

theorem isHostText_bracketed {text : List Char}
    (h : ∀ c ∈ text, 0x20 < c.toNat ∧ c ∉ ['/', '\\', '?', '#', '@', ']']) :
    IsHostText ('[' :: text ++ [']']) := by
  have hinner : ']' ∉ text := fun hmem => (h _ hmem).2 (by decide)
  refine ⟨List.cons_ne_nil _ _, fun c hc => ?_, fun rest hrest => ?_⟩
  · rw [List.mem_append, List.mem_cons, List.mem_singleton] at hc
    rcases hc with (rfl | hc) | rfl
    · decide
    · exact ⟨(h c hc).1, fun hmem => (h c hc).2 (List.mem_append_left [']'] hmem)⟩
    · decide
  · rw [List.append_assoc, List.cons_append, List.singleton_append, hostSpan, if_neg (by decide)]
    have hinside : ('[' == '[' || (false && '[' != ']')) = true := rfl
    rw [hinside, hostSpan_inside hinner, hostSpan_behind hrest]
    rfl

end Url

namespace Host

open Url (IsHostText)

/-- No label of the host is too long to be read again. -/
def IsShort : Host → Prop
  | name t => Domain.IsShort t
  | ipv4 _ | ipv6 _ => True

instance (h : Host) : Decidable h.IsShort :=
  match h with
  | name t => inferInstanceAs (Decidable (Domain.IsShort t))
  | ipv4 _ => isTrue trivial
  | ipv6 _ => isTrue trivial

/-! ## Names -/

/-- No character of a name is a mark of a URL, a percent sign or a blank. -/
theorem plain_of_isHostChar {c : Char} (h : Domain.IsHostChar c) :
    (0x20 < c.toNat ∧ c ∉ ['/', '\\', '?', '#', '@', ':', '[']) ∧ c ≠ '%' := by
  exact Pieces.of_ascii (P := fun c => Domain.isDenied c = false →
    (0x20 < c.toNat ∧ c ∉ ['/', '\\', '?', '#', '@', ':', '[']) ∧ c ≠ '%') (by decide +kernel)
    h.ascii h.allowed

/-- A text without a bracket and percent signs is read as a name. -/
theorem read_of_plain {text : List Char} (h : ∀ c ∈ text, c ≠ '[' ∧ c ≠ '%') :
    read text = match Domain.ascii? text with
      | some domain => ofDomain domain
      | none => .error .badDomainName := by
  have hpercent : '%' ∉ text := fun hmem => (h _ hmem).2 rfl
  unfold read
  split
  · next inner => exact absurd rfl (h '[' List.mem_cons_self).1
  · have hchars : (Utf8.chars? (Percent.decode text)).bind Domain.ascii? = Domain.ascii? text := by
      rw [Percent.chars?_decode_of_plain hpercent, Option.bind_some]
    exact congrArg (fun domain => match domain with
      | some domain => ofDomain domain
      | none => .error .badDomainName) hchars

/-- What a host is that a name is read as. -/
theorem ofDomain_ok {domain : List Char} {host : Host} (h : ofDomain domain = .ok host) :
    domain ≠ [] ∧ (host = .name domain ∨ ∃ a, host = .ipv4 a) := by
  unfold ofDomain at h
  split at h
  · cases h
  · next hne =>
    refine ⟨fun hnil => hne (by rw [hnil]; rfl), ?_⟩
    split at h
    · split at h
      · next a _ =>
        cases h
        exact Or.inr ⟨a, rfl⟩
      · cases h
    · cases h
      exact Or.inl rfl

/-! ## Hosts -/

/-- How a host can have been read. -/
inductive IsRead : Host → Prop
  | name {text domain : List Char} : Domain.ascii? text = some domain →
      ofDomain domain = .ok (.name domain) → IsRead (.name domain)
  | ipv4 (a : Ipv4) : IsRead (.ipv4 a)
  | ipv6 (a : Ipv6) : IsRead (.ipv6 a)

theorem isRead_of_read {text : List Char} {host : Host} (h : read text = .ok host) :
    IsRead host := by
  unfold read at h
  split at h
  · unfold bracketed at h
    split at h
    · next a _ =>
      cases h
      exact .ipv6 a
    · cases h
  · next t _ =>
    split at h
    · next domain hdomain =>
      obtain ⟨chars, -, hascii⟩ := Option.bind_eq_some_iff.mp hdomain
      rcases (ofDomain_ok h).2 with rfl | ⟨a, rfl⟩
      · exact .name hascii h
      · exact .ipv4 a
    · cases h

theorem isHostChar_of_mem_ipv4 {a : Ipv4} : ∀ c ∈ a.text, Domain.IsHostChar c := by
  intro c hc
  rcases Pieces.mem_intercalate hc with rfl | ⟨piece, hpiece, hc⟩
  · exact Domain.isHostChar_dot
  · exact (Domain.isHostChar_of_isDecimal ((Ipv4.isDigit_of_mem_pieces piece hpiece).2 c hc)).1.1

/-- **The text of a host holds none of the marks around it in a URL.** -/
theorem IsRead.isHostText {host : Host} (h : host.IsRead) : IsHostText host.text := by
  cases h with
  | @name text domain hascii hdomain =>
    exact Url.isHostText_of_plain (ofDomain_ok hdomain).1
      fun c hc => (plain_of_isHostChar (Domain.isHostChar_of_mem_ascii? hascii c hc)).1
  | ipv4 a =>
    exact Url.isHostText_of_plain (Ipv4.text_ne_nil a)
      fun c hc => (plain_of_isHostChar (isHostChar_of_mem_ipv4 c hc)).1
  | ipv6 a =>
    refine Url.isHostText_bracketed fun c hc => ?_
    have hall : ∀ d < 16, 0x20 < (Nat.digitChar d).toNat ∧
        Nat.digitChar d ∉ ['/', '\\', '?', '#', '@', ']'] := by decide
    rcases Ipv6.mem_text hc with rfl | ⟨d, hd, rfl⟩
    · decide
    · exact hall d hd

theorem IsRead.isEmpty {host : Host} (h : host.IsRead) : host.isEmpty = false := by
  cases h with
  | @name text domain hascii hdomain =>
    have hne := (ofDomain_ok hdomain).1
    cases domain with
    | nil => exact absurd rfl hne
    | cons c domain => rfl
  | ipv4 a => rfl
  | ipv6 a => rfl

/-- **The text of a host is read as the host, unless a label is too long.** -/
theorem IsRead.read_text {host : Host} (h : host.IsRead) :
    read host.text = if host.IsShort then .ok host else .error .badDomainName := by
  cases h with
  | @name text domain hascii hdomain =>
    have hchars := fun c hc => plain_of_isHostChar (Domain.isHostChar_of_mem_ascii? hascii c hc)
    have hplain : ∀ c ∈ domain, c ≠ '[' ∧ c ≠ '%' := by
      intro c hc
      refine ⟨?_, (hchars c hc).2⟩
      rintro rfl
      exact (hchars _ hc).1.2 (by decide)
    show read domain = if Domain.IsShort domain then _ else _
    rw [read_of_plain hplain, Domain.ascii?_of_ascii? hascii]
    by_cases hshort : Domain.IsShort domain
    · rw [if_pos hshort, if_pos hshort]
      exact hdomain
    · rw [if_neg hshort, if_neg hshort]
  | ipv4 a =>
    have hplain : ∀ c ∈ a.text, c ≠ '[' ∧ c ≠ '%' := by
      intro c hc
      obtain ⟨hchars, hpercent⟩ := plain_of_isHostChar (isHostChar_of_mem_ipv4 c hc)
      refine ⟨?_, hpercent⟩
      rintro rfl
      exact hchars.2 (by decide)
    have hascii : Domain.ascii? a.text = some a.text :=
      Domain.ascii?_of_digits (List.cons_ne_nil _ _)
        fun piece hpiece => (Ipv4.isDigit_of_mem_pieces piece hpiece).2
    show read a.text = if True then _ else _
    rw [if_pos trivial, read_of_plain hplain, hascii]
    dsimp only
    rw [ofDomain, if_neg, if_pos (Ipv4.isDue_text a), Ipv4.read?_text]
    rw [List.isEmpty_iff]
    exact Ipv4.text_ne_nil a
  | ipv6 a =>
    show read ('[' :: a.text ++ [']']) = if True then _ else _
    rw [if_pos trivial, List.cons_append, read, bracketed, List.getLast?_concat, if_pos rfl,
      List.dropLast_concat, Ipv6.read?_text]

end Host

end SecretClient
