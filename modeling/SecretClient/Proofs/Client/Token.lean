import SecretClient.Proofs.Client.Order

/-!
# The token of a client

Which token a client holds after a run, and which one its requests carry.

* `token_of_run` : the token is empty after building; a login that succeeds sets it, a revocation
  that succeeds empties it, and no other step touches it. So a client holds the token of its last
  login, unless a revocation came after it
* `tokens_sent` : the requests of a step carry the token from before the step, on every redirect,
  and those of a login none

A step is named by its index `i` in the run; `Client.stateAt` is the client before it.
-/

namespace SecretClient

/-! ## Logging in by application and user -/

/-- A login by application and user gives a token exactly if the chain of redirects ends in a reply
with status 200 and a body from which that token is read. -/
theorem AppId.login_eq_ok_iff {a : AppId} {base : Url} {peer : Http.Peer} {t : String} :
    (a.login base peer).result = .ok t ↔
      ∃ reply bytes, (a.loginOrder base).FinalReply peer reply ∧ reply.status = 200 ∧
        reply.body = .complete bytes ∧ AppId.token? bytes = some t := by
  unfold AppId.login
  dsimp only
  constructor
  · intro h
    cases hsend : ((a.loginOrder base).send peer).result with
    | error e => rw [hsend] at h; cases h
    | ok reply =>
      rw [hsend] at h
      refine ⟨reply, ?_⟩
      rw [← Http.Order.send_result_eq_ok_iff]
      dsimp only [AppId.loginResult] at h
      split at h
      · next hstatus =>
        split at h
        · next bytes hbody =>
          split at h
          · next t' ht =>
            cases h
            exact ⟨bytes, hsend, hstatus, hbody, ht⟩
          · cases h
        · cases h
      · cases h
  · rintro ⟨reply, bytes, hfinal, hstatus, hbody, ht⟩
    rw [Http.Order.send_result_eq_ok_iff.mpr hfinal]
    simp only [AppId.loginResult, hstatus, hbody, ht, if_true]

/-- A login sends no token. -/
theorem Strategy.token_requests (s : Strategy) (n : Nat) (base : Url) (peer : Http.Peer) :
    ∀ q ∈ (s.token n base peer).requests, q.token = none := by
  cases s with
  | appId a =>
    simp only [Strategy.token, AppId.login]
    exact Http.Order.send_token
  | static | custom =>
    intro q hq
    exact absurd hq List.not_mem_nil

namespace Client

/-! ## What is observed of a step -/

/-- Step `i` of a run is a login that succeeds, and its strategy gave the token `t`. -/
def LogsInAt (c : Client) (steps : List (Operation × Http.Peer)) (i : Nat) (t : String) : Prop :=
  ∃ peer s, steps[i]? = some (.login, peer) ∧ (c.run steps)[i]? = some s ∧ s.attempt.Succeeds ∧
    (c.strategy.token (c.stateAt steps i).logins c.base peer).result = .ok t

/-- Step `i` of a run is a revocation that succeeds, of a token that can be revoked. -/
def RevokesAt (c : Client) (steps : List (Operation × Http.Peer)) (i : Nat) : Prop :=
  c.strategy.isRevocable = true ∧
    ∃ peer s, steps[i]? = some (.revoke, peer) ∧ (c.run steps)[i]? = some s ∧ s.attempt.Succeeds

/-- Among the first `k` steps of a run, step `i` is the last login that succeeds and it got the token
`t`, and no revocation succeeds after it. -/
def HoldsSince (c : Client) (steps : List (Operation × Http.Peer)) (i k : Nat) (t : String) : Prop :=
  i < k ∧ c.LogsInAt steps i t ∧
    ∀ j, i < j → j < k → (∀ u, ¬ c.LogsInAt steps j u) ∧ ¬ c.RevokesAt steps j

/-- What a step does to the token, by what is observed of the step: `c` is the client before it. -/
structure TokenStep (c : Client) (operation : Operation) (peer : Http.Peer) (s : Step) : Prop where
  /-- A login succeeds exactly if the strategy gives a token. -/
  succeeds : operation = .login →
    (s.attempt.Succeeds ↔ ∃ t, (c.strategy.token c.logins c.base peer).result = .ok t)
  /-- A login that succeeds sets the token that the strategy gave. -/
  granted : operation = .login → s.attempt.Succeeds →
    (c.strategy.token c.logins c.base peer).result = .ok s.after.token
  /-- By application and user, that is the token of the final reply of the login. -/
  received : ∀ a, c.strategy = .appId a → operation = .login → s.attempt.Succeeds →
    ∃ reply bytes, (a.loginOrder c.base).FinalReply peer reply ∧ reply.status = 200 ∧
      reply.body = .complete bytes ∧ AppId.token? bytes = some s.after.token
  /-- A revocation that succeeds empties the token, if it can be revoked. -/
  cleared : operation = .revoke → c.strategy.isRevocable = true → s.attempt.Succeeds →
    s.after.token = ""
  /-- Any other step leaves the token as it was. -/
  kept : ¬ (operation = .login ∧ s.attempt.Succeeds) →
    ¬ (operation = .revoke ∧ c.strategy.isRevocable = true ∧ s.attempt.Succeeds) →
    s.after.token = c.token

/-! ## The token after a step -/

theorem tokenStep_perform (c : Client) (operation : Operation) (peer : Http.Peer) :
    TokenStep c operation peer
      ⟨(c.perform operation peer).1, (c.perform operation peer).2⟩ := by
  have heffect := perform_effect c operation peer
  have hgranted : operation = .login → (c.perform operation peer).1.Succeeds →
      (c.strategy.token c.logins c.base peer).result
        = .ok (c.perform operation peer).2.token := by
    rintro rfl ⟨v, hv⟩
    rw [hv] at heffect
    generalize (c.perform .login peer).2 = after at heffect
    cases heffect with
    | granted h => exact h
    | read h => exact h.elim
  refine ⟨?_, hgranted, ?_, ?_, ?_⟩
  · rintro rfl
    refine ⟨fun hs => ⟨_, hgranted rfl hs⟩, fun ⟨t, ht⟩ => ?_⟩
    unfold Attempt.Succeeds
    dsimp only
    generalize (c.perform .login peer).1.result = result at heffect ⊢
    generalize (c.perform .login peer).2 = after at heffect
    cases heffect with
    | granted => exact ⟨_, rfl⟩
    | refused h => rw [ht] at h; cases h
    | read h => exact h.elim
  · intro a ha hop hs
    have htoken := hgranted hop hs
    rw [ha] at htoken
    exact AppId.login_eq_ok_iff.mp htoken
  · rintro rfl hr ⟨v, hv⟩
    dsimp only at hv ⊢
    rw [hv] at heffect
    generalize (c.perform .revoke peer).2 = after at heffect ⊢
    cases heffect with
    | cleared => rfl
    | skipped h => rw [hr] at h; cases h
    | read h => exact h.elim
  · intro hlogin hrevoke
    unfold Attempt.Succeeds at hlogin hrevoke
    dsimp only at hlogin hrevoke ⊢
    generalize (c.perform operation peer).1.result = result at heffect hlogin hrevoke
    generalize (c.perform operation peer).2 = after at heffect ⊢
    cases heffect with
    | granted => exact absurd ⟨rfl, _, rfl⟩ hlogin
    | cleared hr => exact absurd ⟨rfl, hr, _, rfl⟩ hrevoke
    | refused | unacknowledged | skipped | read => rfl

variable {c : Client} {steps : List (Operation × Http.Peer)}

/-- Each step of a run is there and does to the token what `TokenStep` says. -/
theorem tokenStep_run {i : Nat} {operation : Operation} {peer : Http.Peer}
    (h : steps[i]? = some (operation, peer)) :
    ∃ s, (c.run steps)[i]? = some s ∧ s.after = c.stateAt steps (i + 1) ∧
      TokenStep (c.stateAt steps i) operation peer s := by
  refine ⟨_, ?_, ?_, tokenStep_perform (c.stateAt steps i) operation peer⟩
  · rw [getElem?_run, h]
    rfl
  · rw [stateAt_succ c h]

theorem token_stateAt_of_logsInAt {i : Nat} {t : String} (h : c.LogsInAt steps i t) :
    (c.stateAt steps (i + 1)).token = t := by
  obtain ⟨peer, s, hstep, hrun, hs, ht⟩ := h
  obtain ⟨s', hrun', hafter, hlaw⟩ := tokenStep_run (c := c) hstep
  rw [hrun] at hrun'
  cases hrun'
  have hgranted := hlaw.granted rfl hs
  rw [stateAt_strategy, stateAt_base, ht] at hgranted
  rw [← hafter]
  exact (Except.ok.inj hgranted).symm

theorem token_stateAt_of_revokesAt {i : Nat} (h : c.RevokesAt steps i) :
    (c.stateAt steps (i + 1)).token = "" := by
  obtain ⟨hr, peer, s, hstep, hrun, hs⟩ := h
  obtain ⟨s', hrun', hafter, hlaw⟩ := tokenStep_run (c := c) hstep
  rw [hrun] at hrun'
  cases hrun'
  rw [← hafter]
  exact hlaw.cleared rfl (by rw [stateAt_strategy]; exact hr) hs

/-- A step that neither logs in nor revokes leaves the token as it was. -/
theorem token_stateAt_succ {i : Nat} (hlogin : ∀ t, ¬ c.LogsInAt steps i t)
    (hrevoke : ¬ c.RevokesAt steps i) :
    (c.stateAt steps (i + 1)).token = (c.stateAt steps i).token := by
  cases hstep : steps[i]? with
  | none => rw [stateAt_succ_of_none c hstep]
  | some step =>
    obtain ⟨operation, peer⟩ := step
    obtain ⟨s, hrun, hafter, hlaw⟩ := tokenStep_run (c := c) hstep
    rw [← hafter]
    refine hlaw.kept ?_ ?_
    · rintro ⟨rfl, hs⟩
      have hgranted := hlaw.granted rfl hs
      rw [stateAt_strategy, stateAt_base] at hgranted
      exact hlogin _ ⟨peer, s, hstep, hrun, hs, hgranted⟩
    · rintro ⟨rfl, hr, hs⟩
      rw [stateAt_strategy] at hr
      exact hrevoke ⟨hr, peer, s, hstep, hrun, hs⟩

/-! ## The token after a run -/

/-- After the first `k` steps the client holds the token of the last login. -/
theorem token_of_holdsSince {i k : Nat} {t : String} (h : c.HoldsSince steps i k t) :
    (c.stateAt steps k).token = t := by
  obtain ⟨hik, hlogin, hquiet⟩ := h
  -- step `k` comes after the login, and is quiet, or is the login itself
  induction k with
  | zero => exact absurd hik (Nat.not_lt_zero i)
  | succ k ih =>
    rcases Nat.lt_or_eq_of_le (Nat.le_of_lt_succ hik) with hlt | rfl
    · obtain ⟨hnologin, hnorevoke⟩ := hquiet k hlt (Nat.lt_succ_self k)
      rw [token_stateAt_succ hnologin hnorevoke]
      exact ih hlt fun j hij hjk => hquiet j hij (Nat.lt_succ_of_lt hjk)
    · exact token_stateAt_of_logsInAt hlogin

/-- After the first `k` steps the client holds no token if it held none at the start and no login
among them is still in force. -/
theorem token_of_not_holdsSince (hc : c.token = "") {k : Nat}
    (h : ∀ i t, ¬ c.HoldsSince steps i k t) : (c.stateAt steps k).token = "" := by
  induction k with
  | zero => rw [stateAt_zero]; exact hc
  | succ k ih =>
    by_cases hlogin : ∃ t, c.LogsInAt steps k t
    · obtain ⟨t, ht⟩ := hlogin
      exact absurd ⟨Nat.lt_succ_self k, ht, fun j hkj hjk => absurd hjk (by omega)⟩ (h k t)
    · have hnologin : ∀ t, ¬ c.LogsInAt steps k t := fun t ht => hlogin ⟨t, ht⟩
      by_cases hrevoke : c.RevokesAt steps k
      · exact token_stateAt_of_revokesAt hrevoke
      · rw [token_stateAt_succ hnologin hrevoke]
        refine ih fun i t ht => h i t ⟨Nat.lt_succ_of_lt ht.1, ht.2.1, fun j hij hjk => ?_⟩
        -- step `k` itself is quiet, and the steps before it are by what holds up to `k`
        rcases Nat.lt_or_eq_of_le (Nat.le_of_lt_succ hjk) with hlt | rfl
        · exact ht.2.2 j hij hlt
        · exact ⟨hnologin, hrevoke⟩

/-- **The token law.** -/
theorem token_of_run {b : Builder} {process : Environ} {files : FileSystem}
    (hbuild : (b.build process files).value = .ok c) (steps : List (Operation × Http.Peer)) :
    c.token = "" ∧
    (∀ i, (c.stateAt steps i).strategy = c.strategy ∧ (c.stateAt steps i).base = c.base) ∧
    (∀ i operation peer, steps[i]? = some (operation, peer) →
      ∃ s, (c.run steps)[i]? = some s ∧ s.after = c.stateAt steps (i + 1) ∧
        TokenStep (c.stateAt steps i) operation peer s) ∧
    (∀ i t, c.HoldsSince steps i steps.length t → (c.stateAt steps steps.length).token = t) ∧
    ((∀ i t, ¬ c.HoldsSince steps i steps.length t) →
      (c.stateAt steps steps.length).token = "") := by
  have hempty := (Builder.build_ok hbuild).2
  refine ⟨hempty, fun i => ⟨stateAt_strategy c steps i, stateAt_base c steps i⟩, ?_, ?_, ?_⟩
  · intro i operation peer h
    exact tokenStep_run h
  · intro i t h
    exact token_of_holdsSince h
  · exact token_of_not_holdsSince hempty

/-- A builder with an address and credentials. -/
def exampleBuilder : Builder :=
  .ofList [.address "http://v/", .strategy (.appId { appId := "a", userId := "u" })]

/-- The client that it builds. -/
def exampleClient : Client where
  base := { scheme := "http", authority := some { host := .name ['v'] }, path := .rooted [[]] }
  strategy := .appId { appId := "a", userId := "u" }

/-- A login that is redirected, a read without an answer, and a revocation that is refused. -/
def exampleSteps : List (Operation × Http.Peer) :=
  [(.login, { script := [.reply { status := 307, location := some "/x" },
      .reply { status := 200, sent := .complete (Utf8.encode
        "\x7b\"auth\":\x7b\"client_token\":\"t\"\x7d\x7d".toList) }] }),
    (.read "a", {}),
    (.revoke, { script := [.reply { status := 500 }] })]

/-- The token of the login is still there when its revocation was refused. -/
theorem token_of_exampleSteps :
    (exampleBuilder.build (fun _ => none) (fun _ => .error .notFound)).value = .ok exampleClient ∧
      (exampleClient.stateAt exampleSteps 3).token = "t" := by
  have hbuild : (exampleBuilder.build (fun _ => none) (fun _ => .error .notFound)).value
      = .ok exampleClient := rfl
  have hsucceeds : (exampleClient.run exampleSteps).map (fun s => decide s.attempt.Succeeds)
      = [true, false, false] := by decide +kernel
  have hget : ∀ {i : Nat} {s : Step}, (exampleClient.run exampleSteps)[i]? = some s →
      [true, false, false][i]? = some (decide s.attempt.Succeeds) := by
    intro i s hs
    rw [← hsucceeds, List.getElem?_map, hs]
    rfl
  obtain ⟨-, -, hsteps, hheld, -⟩ := token_of_run hbuild exampleSteps
  obtain ⟨s, hs, hafter, hlaw⟩ := hsteps 0 .login _ rfl
  have hok : s.attempt.Succeeds := of_decide_eq_true (Option.some.inj (hget hs)).symm
  have htoken : s.after.token = "t" := by
    rw [hafter]
    decide +kernel
  have hlogin : exampleClient.LogsInAt exampleSteps 0 "t" :=
    ⟨_, s, rfl, hs, hok, htoken ▸ hlaw.granted rfl hok⟩
  refine ⟨hbuild, hheld 0 "t" ⟨by decide, hlogin, fun j hpos hlt => ?_⟩⟩
  have hj : j = 1 ∨ j = 2 := by
    change j < 3 at hlt
    omega
  rcases hj with rfl | rfl
  · refine ⟨?_, ?_⟩
    · rintro u ⟨peer, s, hstep, -⟩
      cases hstep
    · rintro ⟨-, peer, s, hstep, -⟩
      cases hstep
  · refine ⟨?_, ?_⟩
    · rintro u ⟨peer, s, hstep, -⟩
      cases hstep
    · rintro ⟨-, peer, s, -, hrun, hrevoked⟩
      exact of_decide_eq_false (Option.some.inj (hget hrun)).symm hrevoked

/-! ## The token on the wire -/

/-- The requests of a step carry the token from before the step, and those of a login none. A token
that no header can hold is not sent at all. -/
theorem requests_token {i : Nat} {operation : Operation} {peer : Http.Peer} {s : Step}
    (h : steps[i]? = some (operation, peer)) (hs : (c.run steps)[i]? = some s) :
    (operation ≠ .login → ∀ q ∈ s.attempt.requests, q.token = some (c.stateAt steps i).token) ∧
    (operation = .login → ∀ q ∈ s.attempt.requests, q.token = none) ∧
    (operation ≠ .login → Http.headerHolds (c.stateAt steps i).token = false →
      s.attempt.requests = []) := by
  rw [getElem?_run, h] at hs
  cases hs
  generalize c.stateAt steps i = before
  refine ⟨fun hop => ?_, ?_, fun hop hheld => ?_⟩
  · rcases perform_requests before hop peer with hnone | ⟨o, ho, hsent⟩
    · intro q hq
      rw [hnone] at hq
      exact absurd hq List.not_mem_nil
    · rw [hsent, ← ho]
      exact Http.Order.send_token
  · rintro rfl
    rw [login_requests]
    exact Strategy.token_requests _ _ _ _
  · rcases perform_requests before hop peer with hnone | ⟨o, ho, hsent⟩
    · exact hnone
    · obtain ⟨e, he⟩ := Http.Order.send_of_not_held ho hheld peer
      rw [hsent, he]

/-- A revocation that succeeds leaves the client without a token until a login succeeds. -/
theorem token_after_revokesAt {i j : Nat} (hrevoke : c.RevokesAt steps i) (hij : i < j)
    (hnologin : ∀ k, i < k → k < j → ∀ t, ¬ c.LogsInAt steps k t) :
    (c.stateAt steps j).token = "" := by
  induction j with
  | zero => exact absurd hij (Nat.not_lt_zero i)
  | succ j ih =>
    rcases Nat.lt_or_eq_of_le (Nat.le_of_lt_succ hij) with hlt | rfl
    · by_cases hagain : c.RevokesAt steps j
      · exact token_stateAt_of_revokesAt hagain
      · rw [token_stateAt_succ (hnologin j hlt (Nat.lt_succ_self j)) hagain]
        exact ih hlt fun k hik hkj => hnologin k hik (Nat.lt_succ_of_lt hkj)
    · exact token_stateAt_of_revokesAt hrevoke

/-- A login by application and user that succeeds got its token from the final reply. -/
theorem exists_logsInAt {a : AppId} (ha : c.strategy = .appId a) {i : Nat} {peer : Http.Peer}
    {s : Step} (h : steps[i]? = some (.login, peer)) (hs : (c.run steps)[i]? = some s)
    (hok : s.attempt.Succeeds) :
    ∃ reply bytes t, (a.loginOrder c.base).FinalReply peer reply ∧ reply.status = 200 ∧
      reply.body = .complete bytes ∧ AppId.token? bytes = some t ∧ c.LogsInAt steps i t := by
  obtain ⟨s', hs', -, hlaw⟩ := tokenStep_run (c := c) h
  rw [hs] at hs'
  cases hs'
  have hgranted := hlaw.granted rfl hok
  have hreceived := hlaw.received a (by rw [stateAt_strategy]; exact ha) rfl hok
  rw [stateAt_strategy, stateAt_base] at hgranted
  rw [stateAt_base] at hreceived
  obtain ⟨reply, bytes, hfinal, hstatus, hbody, ht⟩ := hreceived
  exact ⟨reply, bytes, s.after.token, hfinal, hstatus, hbody, ht, peer, s, h, hs, hok, hgranted⟩

/-- From a revocation that succeeds until a login does, no request carries a token. -/
theorem requests_after_revokesAt {i j : Nat} {s : Step} (hrevoke : c.RevokesAt steps i)
    (hij : i < j) (hnologin : ∀ k, i < k → k < j → ∀ t, ¬ c.LogsInAt steps k t)
    (hs : (c.run steps)[j]? = some s) :
    ∀ q ∈ s.attempt.requests, q.token = none ∨ q.token = some "" := by
  intro q hq
  cases hstep : steps[j]? with
  | none =>
    rw [getElem?_run, hstep] at hs
    cases hs
  | some step =>
    obtain ⟨operation, peer⟩ := step
    obtain ⟨hcarried, hlogin, -⟩ := requests_token hstep hs
    by_cases hop : operation = .login
    · exact Or.inl (hlogin hop q hq)
    · rw [token_after_revokesAt hrevoke hij hnologin] at hcarried
      exact Or.inr (hcarried hop q hq)

/-- While the token of a login is held, every read sends that token. -/
theorem requests_of_holdsSince {i j : Nat} {t : String} (h : c.HoldsSince steps i j t)
    {operation : Operation} {peer : Http.Peer} (hread : operation.IsRead) {s : Step}
    (hstep : steps[j]? = some (operation, peer)) (hs : (c.run steps)[j]? = some s) :
    ∀ q ∈ s.attempt.requests, q.token = some t := by
  have hop : operation ≠ .login := by
    rintro rfl
    exact hread
  have hcarried := (requests_token hstep hs).1 hop
  rwa [token_of_holdsSince h] at hcarried

/-- **What token goes on the wire**: that from before the step with each of its requests, and none with
a login. From a revocation on it is none or the empty one until a login succeeds, and from a login by
application and user on it is the token of the login. -/
theorem tokens_sent (c : Client) (steps : List (Operation × Http.Peer)) :
    (∀ i operation peer s, steps[i]? = some (operation, peer) → (c.run steps)[i]? = some s →
      (operation ≠ .login →
        ∀ q ∈ s.attempt.requests, q.token = some (c.stateAt steps i).token) ∧
      (operation = .login → ∀ q ∈ s.attempt.requests, q.token = none) ∧
      (operation ≠ .login → Http.headerHolds (c.stateAt steps i).token = false →
        s.attempt.requests = [])) ∧
    (∀ i j s, c.RevokesAt steps i → i < j →
      (∀ k, i < k → k < j → ∀ t, ¬ c.LogsInAt steps k t) → (c.run steps)[j]? = some s →
      ∀ q ∈ s.attempt.requests, q.token = none ∨ q.token = some "") ∧
    (∀ a i peer s, c.strategy = .appId a → steps[i]? = some (.login, peer) →
      (c.run steps)[i]? = some s → s.attempt.Succeeds →
      ∃ reply bytes t, (a.loginOrder c.base).FinalReply peer reply ∧ reply.status = 200 ∧
        reply.body = .complete bytes ∧ AppId.token? bytes = some t ∧
        ∀ j operation peer' s', i < j → operation.IsRead →
          steps[j]? = some (operation, peer') → (c.run steps)[j]? = some s' →
          (∀ k, i < k → k < j → (∀ u, ¬ c.LogsInAt steps k u) ∧ ¬ c.RevokesAt steps k) →
          ∀ q ∈ s'.attempt.requests, q.token = some t) := by
  refine ⟨?_, ?_, ?_⟩
  · intro i operation peer s h hs
    exact requests_token h hs
  · intro i j s hrevoke hij hnologin hs
    exact requests_after_revokesAt hrevoke hij hnologin hs
  · intro a i peer s ha h hs hok
    obtain ⟨reply, bytes, t, hfinal, hstatus, hbody, ht, hlogin⟩ := exists_logsInAt ha h hs hok
    refine ⟨reply, bytes, t, hfinal, hstatus, hbody, ht, ?_⟩
    intro j operation peer' s' hij hread hstep hs' hquiet
    exact requests_of_holdsSince ⟨hij, hlogin, hquiet⟩ hread hstep hs'

end Client

end SecretClient
