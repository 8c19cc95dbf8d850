import IdempotentTransformer.Acknowledgement
import IdempotentTransformer.Cleanup

/-!
# IdempotentTransformer.Retention

How long a completed workflow is kept.

`finish_workflow` stores `Utc::now().timestamp_millis() + data.expire_after`,
and the statements of a cleanup run compare that with a reading of the clock
of their own, at any later time.  The sum is one of `i64`s that nothing
checks: past `i64::MAX` it is a time long before 1970.

* `World.KeptUntil` is the deadline an accepted completion puts on the
  workflow's row; no step but a shorter completion takes it away
  (`keptUntil_of_reachable`), and a cleanup statement at a time up to it spares
  the workflow (`World.KeptUntil.spares`);
* `retention_honoured_iff` — a retention is honoured exactly when its end is a
  time an `i64` holds.
-/

namespace IdempotentTransformer

open Library

variable {evictable : CachedLease → Int → Bool} {id : String} {deadline t : Int}

/-! ## What is asked -/

/-- The workflow's row, token and checkpoints are as they were. -/
structure World.Spares (w w' : World) (id : String) : Prop where
  workflows : w'.workflows id = w.workflows id
  fencingTokens : w'.fencingTokens id = w.fencingTokens id
  checkpoints : w'.checkpoints id = w.checkpoints id

/-- The expiry a handler is about to store for the workflow. -/
def nextExpiry (id : String)
    (p : Process StorageCall StorageCall.Reply String (Except HandlerError Response) Request) :
    Option Int :=
  match p.rest with
  | .call (.updateWorkflow expireAt _ _ workflowId) _ =>
      if workflowId = id then some expireAt else none
  | _ => none

/-- A step by which a completion answers `Ok`, with the first of its clock
readings, the one `expire_at` is computed from. -/
structure Handlers.Accepting (evictable : CachedLease → Int → Bool)
    (P P' : Handlers) (pid : Nat) (data : FinishWorkflowInput) (now : Int) : Prop where
  answering : P.Answering evictable P' pid (.completeWorkflow data) (.ok .completeWorkflow)
  reading : (Pool.logOf pid P'.trace)[2]? = some ⟨.utcNow, now⟩

/-- No completion that the step lets take effect moves the workflow's expiry
before the deadline. -/
def Handlers.Retains (id : String) (deadline : Int) (P : Handlers) :
    Pool.Label Request Env Drift → Prop
  | .advance pid _ env => env.fault ≠ .refused →
      ∀ expireAt ∈ (P.procs pid).bind (nextExpiry id), deadline ≤ expireAt
  | _ => True

/-- The step is one statement of a cleanup run whose clock read `t`. -/
def Handlers.CleansUpAt (P : Handlers) (t : Int) (l : Pool.Label Request Env Drift) : Prop :=
  ∃ pid choice env p call next, l = .advance pid choice env ∧ P.procs pid = some p ∧
    p.tag = .cleanUp ∧ p.rest = .call call next ∧ call.timestamp? = some t

/-- Whichever completion with this `expire_after` is accepted at this time, no
cleanup run at a time up to the sum of the two touches the workflow, unless a
later completion has shortened that. -/
def RetentionHonoured (evictable : CachedLease → Int → Bool) (now expireAfter : Int) : Prop :=
  ∀ (P P' Q Q' : Handlers) (pid : Nat) (data : FinishWorkflowInput) (t : Int)
    (l : Pool.Label Request Env Drift), data.expireAfter = expireAfter →
    P.Accepting evictable P' pid data now →
    Reachable (Pool.step (serverMachine evictable))
      (Handlers.Retains data.workflowId (now + expireAfter)) (· = P') Q →
    Q.CleansUpAt t l → t ≤ now + expireAfter →
    Pool.step (serverMachine evictable) Q l = some Q' →
    Q.shared.Spares Q'.shared data.workflowId

/-! ## The deadline of a row -/

/-- The workflow's row, if it is there and expires, does so at the deadline or
later. -/
def World.KeptUntil (w : World) (id : String) (deadline : Int) : Prop :=
  ∀ row, w.workflows id = some row → ∀ expireAt ∈ row.expireAt, deadline ≤ expireAt

section KeptUntil

variable {w w' : World}

/-- The comparison is strict: at its deadline a row is not expired. -/
theorem World.KeptUntil.expired_eq_false (h : w.KeptUntil id deadline) (ht : t ≤ deadline)
    (status : Int) :
    w.expired t status id = false := by
  rw [Bool.eq_false_iff]
  intro he
  obtain ⟨row, expireAt, hrow, hexpire, hlt, -⟩ := World.expired_iff.mp he
  have hle : deadline ≤ expireAt := h row hrow expireAt hexpire
  omega

/-- **A cleanup statement at a time up to the deadline spares the workflow.** -/
theorem World.KeptUntil.spares (h : w.KeptUntil id deadline) (ht : t ≤ deadline) (env : Env)
    {call : StorageCall} (htime : call.timestamp? = some t) :
      w.Spares (call.exec env w).2 id := by
  have hlive := h.expired_eq_false ht
  refine StorageCall.exec_preserves env call w (w.Spares · id) ⟨rfl, rfl, rfl⟩ fun _ => ?_
  cases call with
  | deleteFencingTokens currentTimestamp status =>
      cases htime
      exact ⟨rfl, by simp [StorageCall.effect, StorageCall.exec, Fault.apply, hlive], rfl⟩
  | deleteCheckpoints currentTimestamp status =>
      cases htime
      refine ⟨rfl, rfl, ?_⟩
      funext position
      simp [StorageCall.effect, StorageCall.exec, Fault.apply, hlive]
  | deleteWorkflows currentTimestamp status =>
      cases htime
      exact ⟨by simp [StorageCall.effect, StorageCall.exec, Fault.apply, hlive], rfl, rfl⟩
  | _ => simp [StorageCall.timestamp?] at htime

/-- Only the row matters. -/
theorem World.KeptUntil.congr (h : w.KeptUntil id deadline)
    (hrow : w'.workflows id = w.workflows id) :
    w'.KeptUntil id deadline := by
  rw [World.KeptUntil, hrow]
  exact h

/-- What a completion leaves. -/
theorem keptUntil_setWorkflow {row : Workflow} {expireAt : Int}
    (hexpire : row.expireAt = some expireAt)
    (hle : deadline ≤ expireAt) : (w.setWorkflow id row).KeptUntil id deadline := by
  intro row' hrow' expireAt' hexpire'
  simp only [World.setWorkflow, Function.update_self, Option.some.injEq] at hrow'
  simp only [← hrow', hexpire, Option.mem_def, Option.some.injEq] at hexpire'
  omega

/-- **No call takes the deadline away** but an update that is not refused. -/
theorem World.KeptUntil.exec (h : w.KeptUntil id deadline) (env : Env) {call : StorageCall}
    (hupdate : ∀ expireAt status completedAt, call =
      .updateWorkflow expireAt status completedAt id →
      env.fault ≠ .refused → deadline ≤ expireAt) :
    (call.exec env w).2.KeptUntil id deadline := by
  refine StorageCall.exec_preserves env call w (·.KeptUntil id deadline) h fun hfault => ?_
  cases call with
  | insertWorkflow workflowId status createdAt name =>
      by_cases hid : workflowId = id
      · -- An upsert leaves the expiry of a row that is there.
        subst hid
        intro row hrow expireAt hexpire
        simp only [StorageCall.effect, StorageCall.exec, Fault.apply, World.setWorkflow,
          Function.update_self, Option.some.injEq] at hrow
        cases hold : w.workflows workflowId with
        | none => simp [← hrow, hold, upsertWorkflow] at hexpire
        | some old =>
            have hsame : old.expireAt = some expireAt := by
              simpa [← hrow, hold, upsertWorkflow] using hexpire
            exact h old hold expireAt hsame
      · refine h.congr ?_
        simp [StorageCall.effect, StorageCall.exec, Fault.apply, World.setWorkflow, Ne.symm hid]
  | updateWorkflow expireAt status completedAt workflowId =>
      simp only [StorageCall.effect, StorageCall.exec, Fault.apply]
      cases w.workflows workflowId with
      | none => exact h
      | some row =>
          by_cases hid : workflowId = id
          · subst hid
            exact keptUntil_setWorkflow rfl (hupdate _ _ _ rfl hfault)
          · exact h.congr (by simp [World.setWorkflow, Ne.symm hid])
  | deleteWorkflows currentTimestamp status =>
      intro row hrow
      have hold : w.workflows id = some row := by
        simp only [StorageCall.effect, StorageCall.exec, Fault.apply] at hrow
        split at hrow
        · contradiction
        · exact hrow
      exact h row hold
  | _ => exact h

/-- Drift leaves the rows alone. -/
theorem World.KeptUntil.drift (h : w.KeptUntil id deadline) (hd : w.Drifts evictable w') :
    w'.KeptUntil id deadline := h.congr (congrFun hd.workflows id)

end KeptUntil

/-! ## Runs -/

section Runs

variable {P P' Q Q' : Handlers} {l : Pool.Label Request Env Drift}

/-- **A step that retains it keeps the deadline.** -/
theorem keptUntil_step (h : P.shared.KeptUntil id deadline) (hok : P.Retains id deadline l)
    (hs : Pool.step (serverMachine evictable) P l = some P') :
    P'.shared.KeptUntil id deadline := by
  rcases shared_step hs with hd | ⟨pid, choice, env, p, call, next, rfl, hp, hrest, hshared⟩
  · exact h.drift hd
  · rw [hshared]
    refine h.exec env fun expireAt status completedAt hcall hfault => hok hfault expireAt ?_
    subst hcall
    simp [hp, nextExpiry, hrest]

/-- **Every run of such steps keeps it.** -/
theorem keptUntil_of_reachable (h : P.shared.KeptUntil id deadline)
    (hr : Reachable (Pool.step (serverMachine evictable))
      (Handlers.Retains id deadline) (· = P) Q) :
    Q.shared.KeptUntil id deadline :=
  hr.invariant (fun Q => Q.shared.KeptUntil id deadline) (fun _ hQ => hQ ▸ h)
    fun _ _ _ => keptUntil_step

/-- An accepted completion puts the sum it has computed on the row as its
deadline. -/
theorem Handlers.Accepting.keptUntil {pid : Nat} {data : FinishWorkflowInput} {now : Int}
    (h : P.Accepting evictable P' pid data now) :
    P'.shared.KeptUntil data.workflowId (wrappingAdd now data.expireAfter) := by
  obtain ⟨⟨hr, ⟨l, hs⟩, ⟨p, hp, htag, hnot⟩, q, hq, hans⟩, hreading⟩ := h
  obtain ⟨expireAt, completedAt, hcomputed, hafter⟩ := finish_updates hr hs hp hnot hq htag hans
  obtain ⟨now', completedAt', earlier, hlog, rfl⟩ := hcomputed
  have hnow : now' = now := by
    simp only [hlog, List.getElem?_cons_succ, List.getElem?_cons_zero,
      Option.some.injEq] at hreading
    cases hreading
    rfl
  rw [hafter, hnow]
  cases hrow : P.shared.workflows data.workflowId with
  | none =>
      intro row hrow'
      simp [hrow] at hrow'
  | some row => exact keptUntil_setWorkflow rfl (le_refl _)

end Runs

/-! ## The sum -/

section Sum

variable {now expireAfter : Int}

/-- A sum that fits is exact. -/
theorem wrappingAdd_of_le (hnow : 0 ≤ now) (he : 0 ≤ expireAfter)
    (hfits : now + expireAfter ≤ i64Max) : wrappingAdd now expireAfter = now + expireAfter := by
  unfold i64Max at hfits
  exact Int.bmod_eq_of_le_mul_two (by omega) (by omega)

/-- A sum that does not fit is before the time it is computed at. -/
theorem wrappingAdd_lt (hnow : 0 ≤ now) (hi64 : expireAfter ≤ i64Max)
    (hover : i64Max < now + expireAfter) : wrappingAdd now expireAfter < now := by
  unfold i64Max at hi64 hover
  have hmod : wrappingAdd now expireAfter = (now + expireAfter).bmod (2 ^ 64) := rfl
  rw [Int.bmod_def] at hmod
  omega

/-- **A retention whose end an `i64` holds is honoured.** -/
theorem retentionHonoured_of_le (hnow : 0 ≤ now) (he : 0 ≤ expireAfter)
    (hfits : now + expireAfter ≤ i64Max) : RetentionHonoured evictable now expireAfter := by
  intro P P' Q Q' pid data t l hdata haccepting hr hclean ht hs
  have hkept : P'.shared.KeptUntil data.workflowId (now + expireAfter) := by
    rw [← wrappingAdd_of_le hnow he hfits, ← hdata]
    exact haccepting.keptUntil
  have hstill := keptUntil_of_reachable hkept hr
  obtain ⟨pid', choice, env, p, call, next, rfl, hp, htag, hrest, htime⟩ := hclean
  rcases shared_step hs with hd | ⟨_, _, env', p', call', next', hl, hp', hrest', hshared⟩
  · exact ⟨congrFun hd.workflows _, congrFun hd.fencingTokens _, congrFun hd.checkpoints _⟩
  · cases hl
    rw [hp, Option.some.injEq] at hp'
    subst hp'
    rw [hrest] at hrest'
    cases hrest'
    rw [hshared]
    exact hstill.spares ht env htime

end Sum

/-! ## A retention that wraps -/

section Coming

variable {P Q : Handlers} {pid : Nat}
  {p : Process StorageCall StorageCall.Reply String (Except HandlerError Response) Request}

/-- A handler that is not about to complete the workflow may make its call. -/
theorem retaining_call (hr : Reachable (Pool.step (serverMachine evictable))
      (Handlers.Retains id deadline) (· = P) Q) (hp : Q.procs pid = some p) {call : StorageCall}
    {next : call.Reply →
      Program StorageCall StorageCall.Reply String (Except HandlerError Response)}
    (hrest : p.rest = .call call next) (hnot : nextExpiry id p = none) (env : Env) :
    ∃ Q' q, Reachable (Pool.step (serverMachine evictable)) (Handlers.Retains id deadline)
        (· = P) Q' ∧ Q'.shared = (call.exec env Q.shared).2 ∧ Q'.procs pid = some q ∧
      q.tag = p.tag ∧ q.rest = next (call.exec env Q.shared).1 := by
  have hok : Q.Retains id deadline (.advance pid true env) := by
    simp [Handlers.Retains, hp, hnot]
  exact ⟨_, _, .step hr hok (Pool.step_call hp hrest true env), rfl,
    Pool.perform_procs_self _ _ _ _ _ _, rfl, rfl⟩

/-- How a cleanup run begins on the leader, when the delete of the tokens goes
first. -/
theorem cleanUp_begins : ∃ next, Request.cleanUp.handler.program = .call .isLeaderDb next ∧
    ∃ next', next true = .call .utcNow next' ∧ ∀ now : Int, ∃ next'' other,
      next' now = .either (.call (.deleteFencingTokens now completed) next'') other :=
  ⟨_, rfl, _, rfl, fun _ => ⟨_, _, rfl⟩⟩

/-- **A cleanup run may come at any moment**, and get as far as its first
statement. -/
theorem cleanUp_comes (evictable : CachedLease → Int → Bool) (hfree : P.procs pid = none)
    (id : String) (deadline : Int) :
    ∃ Q p next,
      Reachable (Pool.step (serverMachine evictable)) (Handlers.Retains id deadline) (· = P) Q ∧
        Q.shared = P.shared ∧ Q.procs pid = some p ∧ p.tag = .cleanUp ∧
        p.rest = .call (.deleteFencingTokens P.shared.now completed) next := by
  obtain ⟨next, hprogram, next', hnext, hbegins⟩ := cleanUp_begins
  obtain ⟨next'', other, hnext'⟩ := hbegins P.shared.now
  have hstart : Reachable (Pool.step (serverMachine evictable)) (Handlers.Retains id deadline)
      (· = P) P := .start rfl
  have harrives : P.Retains id deadline (.arrive pid .cleanUp) := trivial
  have harrived := hstart.step harrives (Pool.step_arrive hfree .cleanUp)
  obtain ⟨P₂, p₂, hasked, hshared₂, hp₂, htag₂, hrest₂⟩ := retaining_call harrived
    (Pool.setProcess_procs_self _ _ _) hprogram (by simp [nextExpiry, serverMachine, hprogram])
    (.calm "" true)
  have hleader : p₂.rest = .call .utcNow next' := hrest₂.trans hnext
  obtain ⟨P₃, p₃, hread, hshared₃, hp₃, htag₃, hrest₃⟩ := retaining_call hasked hp₂ hleader
    (by simp [nextExpiry, hleader]) (.calm "" true)
  have hworld : P₂.shared = P.shared := hshared₂
  have hclock : p₃.rest =
      .either (.call (.deleteFencingTokens P.shared.now completed) next'') other := by
    rw [hrest₃, hworld]
    exact hnext'
  have hok : Handlers.Retains id deadline P₃ (.advance pid true (.calm "" true)) := by
    simp [Handlers.Retains, hp₃, nextExpiry, hclock]
  have hchosen := hread.step hok (Pool.step_either hp₃ hclock true (Env.calm "" true))
  exact ⟨_, _, next'', hchosen, hshared₃.trans hworld, Pool.setProcess_procs_self _ _ _,
    htag₃.trans htag₂, rfl⟩

end Coming

/-- A worker completes the workflow, to be kept for so long. -/
def completeFor (expireAfter : Int) : FinishWorkflowInput :=
  { workflowId := "pay", fencingToken := 1, expireAfter := expireAfter }

/-- The workflow is started, and its completion is one call from its answer. -/
def beforeAnswer (expireAfter : Int) : List (Pool.Label Request Env Drift) :=
  arrives 0 payStart 5 ++ arrives 1 (.completeWorkflow (completeFor expireAfter)) 3

/-- The row that completion leaves. -/
def completedPay (now expireAfter : Int) : Workflow :=
  { id := "pay", status := completed, expireAt := some (wrappingAdd now expireAfter),
    completedAt := some now, name := none, createdAt := now }

/-- Any retention can be asked for at any time, and is accepted. -/
theorem completion_accepted (evictable : CachedLease → Int → Bool) (now expireAfter : Int) :
    ∃ P P' : Handlers, P.Accepting evictable P' 1 (completeFor expireAfter) now ∧
      P'.procs 2 = none ∧ P'.shared.now = now ∧ P'.shared.fencingTokens "pay" = some 1 ∧
      P'.shared.workflows "pay" = some (completedPay now expireAfter) := by
  obtain ⟨P, hP⟩ : ∃ P, exec (Pool.step (serverMachine evictable)) (Pool.start (.empty now))
      (beforeAnswer expireAfter) = some P := Option.isSome_iff_exists.mp rfl
  obtain ⟨P', hP'⟩ : ∃ P', exec (Pool.step (serverMachine evictable)) (Pool.start (.empty now))
      (beforeAnswer expireAfter ++ goesOn 1 1) = some P' := Option.isSome_iff_exists.mp rfl
  have hanswering : Handlers.Answering evictable P P' 1
      (.completeWorkflow (completeFor expireAfter)) (.ok .completeWorkflow) :=
    answering_of_exec hP hP'
      (eq_of_outcome hP (fun P => (P.procs 1).map fun p => (p.tag, answer p)) rfl)
      (eq_of_outcome hP' (fun P' => (P'.procs 1).bind answer) rfl)
  have hreading : (Pool.logOf 1 P'.trace)[2]? = some ⟨.utcNow, now⟩ :=
    eq_of_outcome hP' (fun P' => (Pool.logOf 1 P'.trace)[2]?) rfl
  have hfree : P'.procs 2 = none :=
    Option.isNone_iff_eq_none.mp (eq_of_outcome hP' (fun P' => (P'.procs 2).isNone) rfl)
  exact ⟨P, P', ⟨hanswering, hreading⟩, hfree, eq_of_outcome hP' (fun P' => P'.shared.now) rfl,
    eq_of_outcome hP' (fun P' => P'.shared.fencingTokens "pay") rfl,
    eq_of_outcome hP' (fun P' => P'.shared.workflows "pay") rfl⟩

/-- **A retention whose end an `i64` does not hold is over at once.** -/
theorem not_retentionHonoured_of_lt {now expireAfter : Int} (hnow : 0 ≤ now)
    (he : 0 ≤ expireAfter) (hi64 : expireAfter ≤ i64Max) (hover : i64Max < now + expireAfter) :
    ¬ RetentionHonoured evictable now expireAfter := by
  intro hhonoured
  obtain ⟨P, P', haccepting, hfree, hclock, htoken, hrow⟩ :=
    completion_accepted evictable now expireAfter
  obtain ⟨Q, p, next, hr, hshared, hp, htag, hrest⟩ :=
    cleanUp_comes evictable hfree "pay" (now + expireAfter)
  have hclean : Handlers.CleansUpAt Q now (.advance 2 true (.calm "" true)) :=
    ⟨2, true, _, p, _, next, rfl, hp, htag, hrest, congrArg some hclock⟩
  have hstep := Pool.step_call (M := serverMachine evictable) hp hrest true (Env.calm "" true)
  have hspares := hhonoured P P' Q _ 1 (completeFor expireAfter) now _ rfl haccepting hr hclean
    (by omega) hstep
  have hexpired : Q.shared.expired P'.shared.now completed "pay" = true := by
    have hfound : Q.shared.workflows "pay" = some (completedPay now expireAfter) := by
      rw [hshared, hrow]
    have hlt : wrappingAdd now expireAfter < P'.shared.now := by
      rw [hclock]
      exact wrappingAdd_lt hnow hi64 hover
    exact World.expired_iff.mpr ⟨_, _, hfound, rfl, hlt, rfl⟩
  -- The first statement of the run takes the token.
  have hgone : some (1 : Int) = none := by
    calc some 1
      _ = Q.shared.fencingTokens "pay" := by rw [hshared, htoken]
      _ = _ := hspares.fencingTokens.symm
      _ = none := if_pos hexpired
  contradiction

/-- **A retention is honoured exactly when its end is a time an `i64` holds.** -/
theorem retention_honoured_iff (evictable : CachedLease → Int → Bool) {now expireAfter : Int}
    (hnow : 0 ≤ now) (he : 0 ≤ expireAfter) (hi64 : expireAfter ≤ i64Max) :
    RetentionHonoured evictable now expireAfter ↔ now + expireAfter ≤ i64Max := by
  constructor
  · intro hhonoured
    by_contra hover
    exact not_retentionHonoured_of_lt hnow he hi64 (not_le.mp hover) hhonoured
  · exact retentionHonoured_of_le hnow he

/-- A minute, asked for in 2025. -/
theorem minute_honoured : RetentionHonoured leaseExpired 1750000000000 60000 :=
  (retention_honoured_iff leaseExpired (by decide) (by decide) (by decide)).mpr (by decide)

/-- As long as can be asked for, then. -/
theorem forever_not_honoured : ¬ RetentionHonoured leaseExpired 1750000000000 i64Max :=
  not_retentionHonoured_of_lt (by decide) (by decide) (by decide) (by decide)

end IdempotentTransformer
