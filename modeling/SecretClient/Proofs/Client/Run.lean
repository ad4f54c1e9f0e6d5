import SecretClient.Client.Builder
import SecretClient.Client.Run
import SecretClient.Proofs.Http.Chain

/-!
# Runs step by step

What one operation does to the client (`Effect`), and from that what holds at each step of a run.

* `perform_effect` : all that an operation can do to the client, by its result
* `getElem?_run` : the steps of a run are the operations, each carried out in the state before it
* `stateAt_strategy`, `stateAt_base` : a run changes neither the strategy nor the address
-/

namespace SecretClient

/-- An attempt that gives a value. -/
def Attempt.Succeeds {α : Type} (a : Attempt α) : Prop := ∃ v, a.result = .ok v

instance {α : Type} (a : Attempt α) : Decidable a.Succeeds :=
  match h : a.result with
  | .ok v => .isTrue ⟨v, h⟩
  | .error _ => .isFalse fun ⟨v, hv⟩ => by rw [h] at hv; cases hv

/-- The operations that read a secret. -/
def Operation.IsRead : Operation → Prop
  | .read _ | .readValue _ | .readAs _ _ => True
  | .login | .revoke => False

namespace Client

/-! ## One operation -/

theorem perform_login (c : Client) (peer : Http.Peer) :
    c.perform .login peer = ((c.login peer).1.map fun _ => .done, (c.login peer).2) := by
  unfold perform
  cases c.login peer
  rfl

theorem perform_revoke (c : Client) (peer : Http.Peer) :
    c.perform .revoke peer = ((c.revoke peer).1.map fun _ => .done, (c.revoke peer).2) := by
  unfold perform
  cases c.revoke peer
  rfl

/-- What an operation does to the client, by its result. Only a login that gets a token and a
revocation that is acknowledged touch the token. -/
inductive Effect (c : Client) (peer : Http.Peer) : Operation → Except Failure Output → Client → Prop
  | granted {t : String} : (c.strategy.token c.logins c.base peer).result = .ok t →
      Effect c peer .login (.ok .done) { c with token := t, logins := c.logins + 1 }
  | refused {e : Failure} : (c.strategy.token c.logins c.base peer).result = .error e →
      Effect c peer .login (.error e) { c with logins := c.logins + 1 }
  | cleared : c.strategy.isRevocable = true →
      Effect c peer .revoke (.ok .done) { c with token := "" }
  | unacknowledged {e : Failure} : c.strategy.isRevocable = true →
      Effect c peer .revoke (.error e) c
  | skipped : c.strategy.isRevocable = false → Effect c peer .revoke (.ok .done) c
  | read {operation : Operation} {result : Except Failure Output} : operation.IsRead →
      Effect c peer operation result c

theorem login_effect (c : Client) (peer : Http.Peer) :
    Effect c peer .login (c.perform .login peer).1.result (c.perform .login peer).2 := by
  simp only [perform, login]
  cases h : (c.strategy.token c.logins c.base peer).result with
  | error e => exact .refused h
  | ok t => exact .granted h

theorem revoke_effect (c : Client) (peer : Http.Peer) :
    Effect c peer .revoke (c.perform .revoke peer).1.result (c.perform .revoke peer).2 := by
  simp only [perform, revoke]
  split
  · next hr =>
    cases (c.revokeOrder.send peer).result with
    | error e => exact .unacknowledged hr
    | ok reply =>
      dsimp only
      split
      · exact .cleared hr
      · exact .unacknowledged hr
  · next hr => exact .skipped (by simpa using hr)

/-- **All that an operation can do to the client.** -/
theorem perform_effect (c : Client) (operation : Operation) (peer : Http.Peer) :
    Effect c peer operation (c.perform operation peer).1.result (c.perform operation peer).2 := by
  cases operation with
  | login => exact login_effect c peer
  | revoke => exact revoke_effect c peer
  | read | readValue | readAs => exact .read trivial

theorem Effect.strategy {c after : Client} {peer : Http.Peer} {operation : Operation}
    {result : Except Failure Output} (h : Effect c peer operation result after) :
    after.strategy = c.strategy := by
  cases h <;> rfl

theorem Effect.base {c after : Client} {peer : Http.Peer} {operation : Operation}
    {result : Except Failure Output} (h : Effect c peer operation result after) :
    after.base = c.base := by
  cases h <;> rfl

/-- A login sends what its strategy sends. -/
theorem login_requests (c : Client) (peer : Http.Peer) :
    (c.perform .login peer).1.requests
      = (c.strategy.token c.logins c.base peer).requests := by
  simp only [perform, login]
  split <;> rfl

/-! ## Runs -/

/-- The client after the first `i` steps of a run, or after all of them if there are fewer. -/
def stateAt (c : Client) : List (Operation × Http.Peer) → Nat → Client
  | [], _ => c
  | _ :: _, 0 => c
  | (operation, peer) :: rest, i + 1 => (c.perform operation peer).2.stateAt rest i

@[simp] theorem stateAt_zero (c : Client) (steps : List (Operation × Http.Peer)) :
    c.stateAt steps 0 = c := by
  cases steps <;> rfl

/-- The steps of a run are its operations, each carried out in the state before it. -/
theorem getElem?_run (c : Client) (steps : List (Operation × Http.Peer)) (i : Nat) :
    (c.run steps)[i]? = steps[i]?.map fun step =>
      ⟨((c.stateAt steps i).perform step.1 step.2).1,
        ((c.stateAt steps i).perform step.1 step.2).2⟩ := by
  -- the first operation moves the client on, so the hypothesis is needed for every client
  induction steps generalizing c i with
  | nil => rfl
  | cons step rest ih =>
    rw [run]
    cases i with
    | zero => simp
    | succ i =>
      rw [List.getElem?_cons_succ, List.getElem?_cons_succ, ih]
      simp only [stateAt]

/-- The state after a step is the one that its operation leaves. -/
theorem stateAt_succ (c : Client) {steps : List (Operation × Http.Peer)} {i : Nat}
    {operation : Operation} {peer : Http.Peer} (h : steps[i]? = some (operation, peer)) :
    c.stateAt steps (i + 1) = ((c.stateAt steps i).perform operation peer).2 := by
  induction steps generalizing c i with
  | nil => cases h
  | cons step rest ih =>
    cases i with
    | zero =>
      cases h
      simp [stateAt]
    | succ i => exact ih _ h

/-- Behind the last step nothing changes any more. -/
theorem stateAt_succ_of_none (c : Client) {steps : List (Operation × Http.Peer)} {i : Nat}
    (h : steps[i]? = none) : c.stateAt steps (i + 1) = c.stateAt steps i := by
  induction steps generalizing c i with
  | nil => rfl
  | cons step rest ih =>
    cases i with
    | zero => cases h
    | succ i => exact ih _ h

/-- What every operation keeps holds in every state of a run. -/
theorem stateAt_induction {P : Client → Prop} {c : Client}
    (hstep : ∀ d operation peer, P d → P (d.perform operation peer).2) (h : P c)
    (steps : List (Operation × Http.Peer)) (i : Nat) : P (c.stateAt steps i) := by
  induction i with
  | zero => rwa [stateAt_zero]
  | succ i ih =>
    cases hs : steps[i]? with
    | none => rwa [stateAt_succ_of_none c hs]
    | some step =>
      rw [stateAt_succ c hs]
      exact hstep _ _ _ ih

/-- A run does not change the strategy. -/
theorem stateAt_strategy (c : Client) (steps : List (Operation × Http.Peer)) (i : Nat) :
    (c.stateAt steps i).strategy = c.strategy :=
  stateAt_induction (P := fun d => d.strategy = c.strategy)
    (fun d operation peer h => (perform_effect d operation peer).strategy.trans h) rfl steps i

/-- A run does not change the address. -/
theorem stateAt_base (c : Client) (steps : List (Operation × Http.Peer)) (i : Nat) :
    (c.stateAt steps i).base = c.base :=
  stateAt_induction (P := fun d => d.base = c.base)
    (fun d operation peer h => (perform_effect d operation peer).base.trans h) rfl steps i

end Client

/-! ## Building -/

/-- The URL of an address that is accepted was read for it. -/
theorem Builder.base_ok {b : Builder} {env : Environ} {u : Url} (h : b.base env = .ok u) :
    ∃ address, Url.parse address = .ok u := by
  unfold Builder.base at h
  split at h
  · cases h
  · next address _ =>
    cases hparse : Url.parse address with
    | error e => rw [hparse] at h; cases h
    | ok v =>
      rw [hparse] at h
      cases h
      exact ⟨address, hparse⟩

/-- What building gives, without the events. -/
theorem Builder.build_value (b : Builder) (process : Environ) (files : FileSystem) :
    (b.build process files).value = do
      let base ← b.base (b.environ.getD process)
      let strategy ← (b.chosenStrategy (b.environ.getD process) files).value
      return { base, strategy, timeout := b.timeout } := by
  unfold Builder.build
  dsimp only
  cases b.base (b.environ.getD process) with
  | error e => rfl
  | ok base =>
    rw [Logged.value_bind]
    cases (b.chosenStrategy (b.environ.getD process) files).value <;> rfl

/-- A client that was built has a URL that was read for its address, and no token. -/
theorem Builder.build_ok {b : Builder} {process : Environ} {files : FileSystem} {c : Client}
    (h : (b.build process files).value = .ok c) :
    (∃ address, Url.parse address = .ok c.base) ∧ c.token = "" := by
  rw [Builder.build_value] at h
  cases hbase : b.base (b.environ.getD process) with
  | error e => rw [hbase] at h; cases h
  | ok base =>
    cases hchosen : (b.chosenStrategy (b.environ.getD process) files).value with
    | error e => rw [hbase, hchosen] at h; cases h
    | ok strategy =>
      rw [hbase, hchosen] at h
      cases h
      exact ⟨Builder.base_ok hbase, rfl⟩

end SecretClient
