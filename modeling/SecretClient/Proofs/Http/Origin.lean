import SecretClient.Proofs.Http.Requests

/-!
# Where a chain of redirects goes

The requests of an order go to one host and port until a redirect leads away from it, and a redirect
does that only if its reference names a scheme or an authority.

* `join_of_not_namesAuthority` : a reference that names neither stays with the URL it is read against
* `Order.sameOrigin_or_leadsAway` : a request goes where the first one goes, or some answer before it
  leads away
-/

namespace SecretClient

/-! ## References -/

namespace Url

/-- Whether a reference names a scheme, or an authority behind two slashes. -/
def namesAuthority (base : Url) (reference : String) : Bool :=
  let t := prepared reference.toList
  (scheme? t).isSome || 2 ≤ (t.takeWhile base.kind.separates).length

theorem relative_of_slashes {base u : Url} {text : List Char}
    (hslashes : (text.takeWhile base.kind.separates).length < 2)
    (h : relative base text = .ok u) : u.scheme = base.scheme ∧ u.authority = base.authority := by
  unfold relative at h
  dsimp only at h
  rw [if_neg (Nat.not_le.mpr hslashes)] at h
  split at h <;>
  · cases h
    exact ⟨rfl, rfl⟩

/-- **A reference that names no authority keeps the one of the URL it is read against.** -/
theorem join_of_not_namesAuthority {base u : Url} {reference : String}
    (hnone : namesAuthority base reference = false) (h : join base reference = .ok u) :
    u.scheme = base.scheme ∧ u.authority = base.authority := by
  unfold namesAuthority at hnone
  dsimp only at hnone
  rw [Bool.or_eq_false_iff, Option.isSome_eq_false_iff, Option.isNone_iff_eq_none,
    decide_eq_false_iff_not, Nat.not_le] at hnone
  obtain ⟨hscheme, hslashes⟩ := hnone
  unfold join at h
  dsimp only at h
  rw [hscheme] at h
  exact relative_of_slashes hslashes h

end Url

namespace Http

/-! ## Hosts and ports -/

section

variable {a b d : Url}

theorem sameOrigin_iff : sameOrigin a b = true ↔
    a.host?.map Host.text = b.host?.map Host.text ∧ a.effectivePort? = b.effectivePort? := by
  unfold sameOrigin
  rw [Bool.and_eq_true, beq_iff_eq, beq_iff_eq]

theorem sameOrigin_trans (h : sameOrigin a b = true) (h' : sameOrigin b d = true) :
    sameOrigin a d = true := by
  rw [sameOrigin_iff] at *
  exact ⟨h.1.trans h'.1, h.2.trans h'.2⟩

theorem sameOrigin_symm (h : sameOrigin a b = true) : sameOrigin b a = true := by
  rw [sameOrigin_iff] at *
  exact ⟨h.1.symm, h.2.symm⟩

theorem sameOrigin_of_eq (hscheme : a.scheme = b.scheme) (hauthority : a.authority = b.authority) :
    sameOrigin a b = true := by
  rw [sameOrigin_iff]
  unfold Url.host? Url.effectivePort?
  rw [hscheme, hauthority]
  exact ⟨rfl, rfl⟩

/-- User name and password are no part of where a request goes. -/
theorem sameOrigin_withoutUserinfo (u : Url) : sameOrigin u.withoutUserinfo u = true := by
  rw [sameOrigin_iff]
  unfold Url.host? Url.effectivePort? Url.withoutUserinfo
  cases u.authority <;> exact ⟨rfl, rfl⟩

end

/-! ## Chains -/

/-- The answer with the index `j` is a redirect that leads from the host or the port of the request
with this index to another: its reference names a scheme or an authority. -/
def LeadsAway (requests : List Request) (peer : Peer) (j : Nat) : Prop :=
  ∃ hop reply location u, requests[j]? = some hop ∧ peer.script[j]? = some (.reply reply) ∧
    isRedirect reply.status = true ∧ reply.location = some location ∧
    Url.namesAuthority hop.target location = true ∧ Url.join hop.target location = .ok u ∧
    sameOrigin hop.target u = false

theorem leadsAway_of_target? {requests : List Request} {peer : Peer} {j : Nat} {hop : Request}
    {reply : Reply} {u : Url} (hsent : requests[j]? = some hop)
    (hanswer : peer.script[j]? = some (.reply reply)) (htarget : reply.target? hop.target = some u)
    (haway : sameOrigin hop.target u = false) : LeadsAway requests peer j := by
  obtain ⟨hredirect, location, hlocation, hjoin, -⟩ := target?_eq_some_iff.mp htarget
  refine ⟨hop, reply, location, u, hsent, hanswer, hredirect, hlocation, ?_, hjoin, haway⟩
  cases hnames : Url.namesAuthority hop.target location with
  | true => rfl
  | false =>
    -- a reference without an authority stays where it is
    obtain ⟨hscheme, hauthority⟩ := Url.join_of_not_namesAuthority hnames hjoin
    rw [sameOrigin_of_eq hscheme.symm hauthority.symm] at haway
    cases haway

/-- **A request goes where the first one goes, or some answer before it leads away.** -/
theorem Order.sameOrigin_or_leadsAway {o : Order} {peer : Peer} {first q : Request} {k : Nat}
    (hfirst : (o.send peer).requests[0]? = some first) (h : (o.send peer).requests[k]? = some q) :
    sameOrigin q.target first.target = true ∨
      ∃ j < k, LeadsAway (o.send peer).requests peer j := by
  induction k generalizing q with
  | zero =>
    cases hfirst.symm.trans h
    exact Or.inl (sameOrigin_of_eq rfl rfl)
  | succ k ih =>
    have hlt := (List.getElem?_eq_some_iff.mp h).1
    have hhop : (o.send peer).requests[k]? = some _ := List.getElem?_eq_getElem (by omega)
    obtain ⟨answer, hanswer, reply, u, rfl, htarget, -, rfl⟩ := followed hhop h
    rcases ih hhop with hsame | ⟨j, hj, haway⟩
    · cases hstay : sameOrigin (o.send peer).requests[k].target u with
      | true => exact Or.inl (sameOrigin_trans (sameOrigin_symm hstay) hsame)
      | false => exact Or.inr ⟨k, by omega, leadsAway_of_target? hhop hanswer htarget hstay⟩
    · exact Or.inr ⟨j, by omega, haway⟩

end Http

end SecretClient
