import Mathlib.Data.List.Forall2
import SecretClient.Proofs.Http.Requests

/-!
# Exchanges that look alike

Two orders that differ only in their token and their body, sent to peers whose replies differ only in
what they carry, come to exchanges that go side by side: request by request, to the same URLs, and
with the same error or with replies that differ only in the same way.

`R` says which replies are taken for the same. They send the client on to the same URL
(`SameHead`).

* `sendFrom_alike`, `Order.send_alike` : exchanges of alike orders are alike
-/

namespace SecretClient.Http

/-! ## What is alike -/

/-- The requests differ at most in the token and in the body that they carry. -/
structure Request.Alike (q q' : Request) : Prop where
  method : q'.method = q.method
  target : q'.target = q.target
  authorization : q'.authorization = q.authorization
  token : q'.token.isSome = q.token.isSome
  body : q'.body.isSome = q.body.isSome

/-- The orders differ at most in their body and in the token, which a header can hold in both or in
none. -/
structure Order.Alike (o o' : Order) : Prop where
  method : o'.method = o.method
  url : o'.url = o.url
  token : o'.token.map headerHolds = o.token.map headerHolds
  body : o'.body.isSome = o.body.isSome

/-- Replies that are taken for the same have one status and one location. -/
def SameHead (R : Reply → Reply → Prop) : Prop :=
  ∀ reply reply', R reply reply' → reply'.status = reply.status ∧ reply'.location = reply.location

/-- Both are silent, or both reply in the same way. -/
inductive Answer.Alike (R : Reply → Reply → Prop) : Answer → Answer → Prop
  | silence : Alike R .silence .silence
  | reply {reply reply' : Reply} : R reply reply' → Alike R (.reply reply) (.reply reply')

/-- The peers answer in the same way. -/
structure Peer.Alike (R : Reply → Reply → Prop) (peer peer' : Peer) : Prop where
  reachable : peer'.reachable = peer.reachable
  certified : peer'.certified = peer.certified
  script : List.Forall₂ (Answer.Alike R) peer.script peer'.script

/-- Both results are the same error, or replies that are taken for the same. -/
inductive ResultAlike (R : Reply → Reply → Prop) :
    Except TransportError Reply → Except TransportError Reply → Prop
  | error (e : TransportError) : ResultAlike R (.error e) (.error e)
  | ok {reply reply' : Reply} : R reply reply' → ResultAlike R (.ok reply) (.ok reply')

/-- The exchanges go side by side. -/
structure Exchange.Alike (R : Reply → Reply → Prop) (x x' : Exchange) : Prop where
  requests : List.Forall₂ Request.Alike x.requests x'.requests
  result : ResultAlike R x.result x'.result

variable {R : Reply → Reply → Prop}

/-! ## Steps of an exchange -/

theorem Peer.Alike.sees {peer peer' : Peer} (h : peer.Alike R peer') (target : Url) :
    peer'.sees target = peer.sees target := by
  unfold Peer.sees
  rw [h.reachable, h.certified]

theorem Peer.Alike.next {peer peer' : Peer} (h : peer.Alike R peer') :
    Answer.Alike R peer.next.1 peer'.next.1 ∧ peer.next.2.Alike R peer'.next.2 := by
  obtain ⟨reachable, certified, script⟩ := peer
  obtain ⟨reachable', certified', script'⟩ := peer'
  obtain ⟨hreachable, hcertified, hscript⟩ := h
  cases hscript with
  | nil => exact ⟨.silence, hreachable, hcertified, .nil⟩
  | cons hanswer hrest => exact ⟨hanswer, hreachable, hcertified, hrest⟩

/-- Replies with one head send the client on alike. -/
theorem target?_congr {reply reply' : Reply} (hstatus : reply'.status = reply.status)
    (hlocation : reply'.location = reply.location) (asked : Url) :
    reply'.target? asked = reply.target? asked := by
  unfold Reply.target?
  rw [hstatus, hlocation]

theorem Request.Alike.redirected {q q' : Request} (h : q.Alike q') (status : Nat) (target : Url) :
    (q.redirected status target).Alike (q'.redirected status target) := by
  obtain ⟨hmethod, htarget, hauthorization, htoken, hbody⟩ := h
  by_cases hrepeated : status = 307 ∨ status = 308
  · refine ⟨?_, rfl, ?_, htoken, ?_⟩
    · simp [Request.redirected, hrepeated, hmethod]
    · simp [Request.redirected, htarget, hauthorization]
    · simp [Request.redirected, hrepeated, hbody]
  · refine ⟨?_, rfl, ?_, htoken, ?_⟩
    · simp [Request.redirected, hrepeated]
    · simp [Request.redirected, htarget, hauthorization]
    · simp [Request.redirected, hrepeated]

/-- **Alike requests to alike peers lead to alike exchanges.** -/
theorem sendFrom_alike (hR : SameHead R) (first : Url) (left : Nat) :
    ∀ {q q' : Request} {peer peer' : Peer}, q.Alike q' → peer.Alike R peer' →
      (sendFrom first left q peer).Alike R (sendFrom first left q' peer') := by
  -- both exchanges take the same branch at each of their checks
  induction left using Nat.strongRecOn with
  | _ left ih =>
    intro q q' peer peer' hq hpeer
    obtain ⟨hanswer, hrest⟩ := hpeer.next
    rw [sendFrom, sendFrom, hq.target, hpeer.sees]
    split
    · generalize peer.next = next at hanswer hrest ⊢
      generalize peer'.next = next' at hanswer hrest ⊢
      obtain ⟨answer, rest⟩ := next
      obtain ⟨answer', rest'⟩ := next'
      dsimp only at hanswer hrest
      cases hanswer with
      | silence => exact ⟨.cons hq .nil, .error _⟩
      | @reply reply reply' hreply =>
        obtain ⟨hstatus, hlocation⟩ := hR reply reply' hreply
        dsimp only
        rw [target?_congr hstatus hlocation, hstatus]
        cases reply.target? q.target with
        | none => exact ⟨.cons hq .nil, .ok hreply⟩
        | some u =>
          cases left with
          | zero => exact ⟨.cons hq .nil, .error _⟩
          | succ left =>
            have hfollowed := ih left (Nat.lt_succ_self left) (hq.redirected reply.status u) hrest
            dsimp only
            split
            · exact ⟨.cons hq hfollowed.requests, hfollowed.result⟩
            · exact ⟨.cons hq .nil, .error _⟩
    · exact ⟨.nil, .error _⟩

/-! ## Orders -/

/-- Alike orders make requests that differ only in what the orders differ in, or the same error. -/
theorem Order.Alike.request_eq {o o' : Order} (h : o.Alike o') :
    o'.request = o.request.map fun r => { r with token := o'.token, body := o'.body } := by
  have hheld : (o'.token.any fun t => !headerHolds t) = o.token.any fun t => !headerHolds t := by
    have htoken := h.token
    cases ht : o.token <;> cases ht' : o'.token <;> simp_all
  unfold Order.request
  rw [h.url, h.method, hheld]
  split
  · rfl
  · next u hu =>
    split
    · rfl
    · dsimp only
      generalize (if (credentials? u).isSome then u.withoutUserinfo else u) = target
      split
      · rfl
      · split <;> rfl

/-- **Alike orders to alike peers lead to alike exchanges.** -/
theorem Order.send_alike (hR : SameHead R) {o o' : Order} {peer peer' : Peer} (h : o.Alike o')
    (hpeer : peer.Alike R peer') : (o.send peer).Alike R (o'.send peer') := by
  unfold Order.send
  rw [h.request_eq]
  cases hr : o.request with
  | error e => exact ⟨.nil, .error e⟩
  | ok r =>
    obtain ⟨u, -, -, -, hbody⟩ := Order.request_eq hr
    have htoken : o'.token.isSome = o.token.isSome := by
      rw [← Option.isSome_map, h.token, Option.isSome_map]
    refine sendFrom_alike hR r.target maxRedirects ⟨rfl, rfl, rfl, ?_, ?_⟩ hpeer
    · rw [(Order.request_ok hr).1]
      exact htoken
    · rw [hbody]
      exact h.body

/-! ## Replies that are the same -/

theorem sameHead_eq : SameHead Eq := by
  rintro reply _ rfl
  exact ⟨rfl, rfl⟩

/-- A peer answers as it does itself. -/
theorem Peer.Alike.refl (hrefl : ∀ reply, R reply reply) (peer : Peer) : peer.Alike R peer := by
  refine ⟨rfl, rfl, List.forall₂_same.mpr fun answer _ => ?_⟩
  cases answer with
  | silence => exact .silence
  | reply reply => exact .reply (hrefl reply)

theorem ResultAlike.eq {x x' : Except TransportError Reply} (h : ResultAlike Eq x x') : x' = x := by
  cases h with
  | error e => rfl
  | ok h => rw [h]

end SecretClient.Http
