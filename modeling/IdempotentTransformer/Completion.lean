import IdempotentTransformer.Server

/-!
# IdempotentTransformer.Completion

Completing a workflow, in runs of the server with each handler in
isolation: whose requests `finish_workflow` lets through, and what happens
to a completed workflow that is started again.

* `completed_by_current_iff` — `finish_workflow` refuses the tokens that are
  newer than the stored one, and no older ones;
* `spared_until_completed_iff` — a start takes a workflow out of reach of
  cleanup only if it was not completed before.
-/

namespace IdempotentTransformer

open Library

variable {evictable : CachedLease → Int → Bool} {s : Server}

/-! ## Tokens issued -/

/-- The token a handled start of the workflow returned. -/
def Handled.issued (h : Handled) (workflowId : String) : Option Int :=
  match h.request, h.reply with
  | .workflowStart data, .ok (.workflowStart output) =>
    if data.workflowId = workflowId then some output.fencingToken else none
  | _, _ => none

/-- The token issued last for a workflow. -/
def lastIssued (history : List Handled) (workflowId : String) : Option Int :=
  history.findSome? fun h => h.issued workflowId

/-- The token was issued for the workflow, and a later start was issued
another one. -/
def SupersededIn (history : List Handled) (workflowId : String) (token : Int) : Prop :=
  (∃ h ∈ history, h.issued workflowId = some token) ∧
    lastIssued history workflowId ≠ some token

/-- What a request does to a token: cleanup deletes it, a start of the
workflow raises it and returns it, and nothing else touches it. -/
theorem handle_token_cases {env : Env} (hf : env.fault = .none) (request : Request) (w : World)
    (workflowId : String) :
    ((request.handle env w).2.fencingTokens workflowId = w.fencingTokens workflowId ∧
        ∀ data, request = .workflowStart data → data.workflowId ≠ workflowId) ∨
      (request = .cleanUp ∧ (request.handle env w).2.fencingTokens workflowId = none) ∨
      ∃ data, request = .workflowStart data ∧ data.workflowId = workflowId ∧
        (request.handle env w).2.fencingTokens workflowId =
          some (upsertFencingToken (w.fencingTokens workflowId) 1) ∧
        (request.handle env w).1 = .ok (.workflowStart
          { fencingToken := upsertFencingToken (w.fencingTokens workflowId) 1 }) := by
  by_cases hu : request = .cleanUp
  · subst hu
    rw [handle_cleanUp, run_handleWorkflowCleanup hf]
    dsimp only
    split
    · rw [World.collect]
      dsimp only
      split
      · exact .inr (.inl ⟨rfl, rfl⟩)
      · exact .inl ⟨rfl, nofun⟩
    · exact .inl ⟨rfl, nofun⟩
  have htokens := handle_fencingTokens hf w hu
  cases request with
  | workflowStart data =>
      by_cases hw : data.workflowId = workflowId
      · subst hw
        refine .inr (.inr ⟨data, rfl, rfl, ?_, ?_⟩)
        · rw [htokens]
          simp
        · rw [handle_workflowStart, run_createWorkflow hf]
          rfl
      · refine .inl ⟨?_, ?_⟩
        · rw [htokens]
          simp [Ne.symm hw]
        · intro data' heq
          cases heq
          exact hw
  | _ => exact .inl ⟨by rw [htokens], nofun⟩

namespace Server

/-- **The stored token is the one issued last.** -/
theorem lastIssued_of_token (hr : s.Reached evictable) {workflowId : String} {token : Int}
    (h : s.world.fencingTokens workflowId = some token) :
    lastIssued s.history workflowId = some token := by
  induction hr generalizing token with
  | start hi =>
      obtain ⟨now, rfl⟩ := hi
      simp [World.empty] at h
  | @step t t' l ht _ hs ih =>
      rcases step_cases hs with
        ⟨request, env, rfl, hf, rfl⟩ | ⟨elapsed, rfl, rfl⟩ | ⟨key, entry, rfl, -, -, rfl⟩
      · rw [lastIssued, record, List.findSome?_cons]
        dsimp only [record] at h
        rcases handle_token_cases hf request t.world workflowId with
          ⟨hsame, hother⟩ | ⟨-, hnone⟩ | ⟨data, rfl, hw, hnew, hreply⟩
        · have hissued : Handled.issued
              { before := t.world, request := request, reply := (request.handle env t.world).1
                after := (request.handle env t.world).2 } workflowId = none := by
            rw [Handled.issued]
            split
            · next data output hd _ => exact if_neg (hother data hd)
            · rfl
          rw [hissued]
          rw [hsame] at h
          exact ih h
        · rw [hnone] at h
          contradiction
        · rw [hnew] at h
          simp [Handled.issued, hreply, hw, Option.some.inj h]
      · exact ih h
      · exact ih h

end Server

/-! ## Who completes a workflow -/

/-- The world with the workflow's row, where there is one, marked completed. -/
def World.complete (w : World) (data : FinishWorkflowInput) : World :=
  match w.workflows data.workflowId with
  | some row => w.setWorkflow data.workflowId
      { row with
        expireAt := some (wrappingAdd w.now data.expireAfter)
        status := WorkflowStatus.Completed.toInt
        completedAt := some w.now }
  | none => w

/-- **What a completion does**: it is refused where no token is stored or an
older one, and accepted otherwise. -/
theorem handle_complete_cases {env : Env} (hf : env.fault = .none) (data : FinishWorkflowInput)
    (w : World) :
    (w.fencingTokens data.workflowId = none ∧ (Request.completeWorkflow data).handle env w =
        (.error (.io .NotFound "fencing_token_not_found"), w)) ∨
      ∃ stored, w.fencingTokens data.workflowId = some stored ∧
        (stored < data.fencingToken ∧ (Request.completeWorkflow data).handle env w =
            (.error (.io .InvalidData "fencing_token_expired"), w) ∨
          data.fencingToken ≤ stored ∧ (Request.completeWorkflow data).handle env w =
            (.ok .completeWorkflow, w.complete data)) := by
  rw [handle_completeWorkflow, run_finishWorkflow hf]
  cases w.fencingTokens data.workflowId with
  | none => exact .inl ⟨rfl, rfl⟩
  | some stored =>
      refine .inr ⟨stored, rfl, ?_⟩
      by_cases hlt : stored < data.fencingToken
      · exact .inl ⟨hlt, by simp [hlt, Except.map]⟩
      · have hle : data.fencingToken ≤ stored := by omega
        refine .inr ⟨hle, ?_⟩
        simp only [hlt, if_false, Except.map]
        rfl

/-- The request is accepted, or touches the workflow's row, only with the
token issued last; with a superseded one it is refused as expired and leaves
the row as it is. -/
def Handled.CompletedByCurrent (h : Handled) (data : FinishWorkflowInput)
    (earlier : List Handled) : Prop :=
  (h.reply = .ok .completeWorkflow ∨
      h.after.workflows data.workflowId ≠ h.before.workflows data.workflowId →
    lastIssued earlier data.workflowId = some data.fencingToken) ∧
  (SupersededIn earlier data.workflowId data.fencingToken →
    h.reply = .error (.io .InvalidData "fencing_token_expired") ∧
      h.after.workflows data.workflowId = h.before.workflows data.workflowId)

/-- The stored token is not newer than the request's; where none is stored
any more, the request's was never superseded. -/
def FinishWorkflowInput.NotOvertaken (data : FinishWorkflowInput) (w : World)
    (earlier : List Handled) : Prop :=
  match w.fencingTokens data.workflowId with
  | some stored => stored ≤ data.fencingToken
  | none => ¬ SupersededIn earlier data.workflowId data.fencingToken

/-- **Who completes a workflow, in every run**: only the current worker, and
no superseded one, exactly where the request's token is not older than the
stored one. -/
theorem completed_by_current_iff (hr : s.Reached evictable) {later earlier : List Handled}
    {h : Handled} (hh : s.history = later ++ h :: earlier) {data : FinishWorkflowInput}
    (hd : h.request = .completeWorkflow data) :
    h.CompletedByCurrent data earlier ↔ data.NotOvertaken h.before earlier := by
  obtain ⟨hreached, env, hf, hhandle⟩ := Server.reachable_of_history hr hh
  rw [hd] at hhandle
  rw [Handled.CompletedByCurrent, FinishWorkflowInput.NotOvertaken]
  rcases handle_complete_cases hf data h.before with
    ⟨htoken, heq⟩ | ⟨stored, htoken, ⟨hlt, heq⟩ | ⟨hle, heq⟩⟩
  · obtain ⟨hreply, hafter⟩ := Prod.ext_iff.mp (hhandle.trans heq)
    dsimp only at hreply hafter
    simp [hreply, hafter, htoken]
  · obtain ⟨hreply, hafter⟩ := Prod.ext_iff.mp (hhandle.trans heq)
    dsimp only at hreply hafter
    simp [hreply, hafter, htoken, Int.le_of_lt hlt]
  · have hreply : h.reply = .ok .completeWorkflow := congrArg Prod.fst (hhandle.trans heq)
    have hlast : lastIssued earlier data.workflowId = some stored :=
      Server.lastIssued_of_token hreached htoken
    rw [htoken]
    constructor
    · intro hcurrent
      have hsame := hcurrent.1 (.inl hreply)
      rw [hlast, Option.some.injEq] at hsame
      show stored ≤ data.fencingToken
      omega
    · intro hstored
      have hsame : stored = data.fencingToken := le_antisymm hstored hle
      rw [hsame] at hlast
      exact ⟨fun _ => hlast, fun hsuperseded => absurd hlast hsuperseded.2⟩

/-- A worker completes the workflow, to be kept for a second. -/
def completePay (fencingToken : Int) : Request :=
  .completeWorkflow { workflowId := "pay", fencingToken := fencingToken, expireAfter := 1000 }

/-- Start the workflow. -/
def startPay : Request := .workflowStart { workflowId := "pay", name := none }

/-- The only worker completes the workflow. -/
def startThenComplete : List ServerLabel :=
  [.handle startPay (.calm "" true), .handle (completePay 1) (.calm "" true)]

/-- A second worker has started the workflow when the first one completes it. -/
def overtakenThenComplete : List ServerLabel :=
  [.handle startPay (.calm "" true), .handle startPay (.calm "" true),
    .handle (completePay 1) (.calm "" true)]

theorem only_worker_completes :
    ∃ s h earlier, exec (Server.step ttlPassed) { world := .empty 0, history := [] }
        startThenComplete = some s ∧ s.history = h :: earlier ∧
      h.request = completePay 1 ∧ h.reply = .ok .completeWorkflow ∧
      h.CompletedByCurrent { workflowId := "pay", fencingToken := 1, expireAfter := 1000 }
        earlier := by
  refine ⟨_, _, _, rfl, rfl, rfl, rfl, ?_⟩
  have hreached := Server.reached_of_exec 0 startThenComplete
    (rfl : exec (Server.step ttlPassed) _ _ = some _)
  have hstored : (1 : Int) ≤ 1 := le_refl 1
  exact (completed_by_current_iff hreached (List.nil_append _).symm rfl).mpr hstored

/-- A superseded worker completes the workflow of the one that runs it. -/
theorem superseded_worker_completes :
    ∃ s h earlier, exec (Server.step ttlPassed) { world := .empty 0, history := [] }
        overtakenThenComplete = some s ∧ s.Reached ttlPassed ∧ s.history = h :: earlier ∧
      h.request = completePay 1 ∧ SupersededIn earlier "pay" 1 ∧
      h.reply = .ok .completeWorkflow ∧
      h.after.workflows "pay" ≠ h.before.workflows "pay" ∧
      ¬ h.CompletedByCurrent { workflowId := "pay", fencingToken := 1, expireAfter := 1000 }
        earlier := by
  refine ⟨_, _, _, rfl, Server.reached_of_exec 0 overtakenThenComplete rfl, rfl, rfl,
    ?_, rfl, ?_, ?_⟩
  · exact ⟨⟨_, List.mem_cons_of_mem _ List.mem_cons_self, rfl⟩, by decide⟩
  · decide
  · intro hcurrent
    exact absurd (hcurrent.1 (.inl rfl)) (by decide)

/-! ## What a request does to a workflow's row -/

section Row

variable {env : Env} (hf : env.fault = .none)

include hf

/-- Cleanup deletes a row that is completed and past its expiry. -/
theorem handle_cleanUp_cases (w : World) :
    Request.cleanUp.handle env w = (.ok .cleanUp, w) ∨
      Request.cleanUp.handle env w = (.ok .cleanUp, w.collect w.now) := by
  rw [handle_cleanUp, run_handleWorkflowCleanup hf]
  cases env.leader with
  | true => exact .inr rfl
  | false => exact .inl rfl

/-- Cleanup leaves a checkpoint as it was. -/
theorem handle_cleanUp_row {w : World} {workflowId : String} {position : Int} {row : Checkpoint}
    (h : (Request.cleanUp.handle env w).2.checkpoints workflowId position = some row) :
    w.checkpoints workflowId position = some row := by
  rcases handle_cleanUp_cases hf w with heq | heq
  · rw [heq] at h
    exact h
  · rw [heq, World.collect] at h
    dsimp only at h
    split at h
    · contradiction
    · exact h

/-- A row changes by a start of its workflow, by an accepted completion, and
by cleanup. -/
theorem handle_workflow_cases (request : Request) (w : World) (id : String) :
    (request.handle env w).2.workflows id = w.workflows id ∨
      (∃ data, request = .workflowStart data ∧ data.workflowId = id ∧
        (request.handle env w).2.workflows id = some (upsertWorkflow (w.workflows id) id
          WorkflowStatus.Running.toInt w.now data.name)) ∨
      (∃ data, request = .completeWorkflow data ∧ data.workflowId = id ∧
        (request.handle env w).1 = .ok .completeWorkflow ∧
        (request.handle env w).2 = w.complete data) ∨
      (request = .cleanUp ∧ (request.handle env w).2.workflows id = none) := by
  cases request with
  | workflowStart data =>
      rw [handle_workflowStart, run_createWorkflow hf]
      by_cases hw : data.workflowId = id
      · subst hw
        exact .inr (.inl ⟨data, rfl, rfl, by simp [World.setWorkflow]⟩)
      · left
        simp [World.setWorkflow, Ne.symm hw]
  | completeWorkflow data =>
      rcases handle_complete_cases hf data w with ⟨-, heq⟩ | ⟨stored, -, ⟨-, heq⟩ | ⟨-, heq⟩⟩
      · exact .inl (by rw [heq])
      · exact .inl (by rw [heq])
      · by_cases hw : data.workflowId = id
        · exact .inr (.inr (.inl ⟨data, rfl, hw, by rw [heq], by rw [heq]⟩))
        · left
          rw [heq, World.complete]
          cases w.workflows data.workflowId with
          | none => rfl
          | some row => simp [World.setWorkflow, Ne.symm hw]
  | cleanUp =>
      rcases handle_cleanUp_cases hf w with heq | heq
      · exact .inl (by rw [heq])
      · rw [heq, World.collect]
        dsimp only
        split
        · exact .inr (.inr (.inr ⟨rfl, rfl⟩))
        · exact .inl rfl
  | checkpoint data =>
      left
      rw [handle_checkpoint, run_handleCheckpoint hf]
      cases w.fencingTokens data.workflowId with
      | none => rfl
      | some stored =>
          dsimp only
          split <;> rfl
  | leaseCheckpoint data =>
      left
      by_cases hg : ((Request.leaseCheckpoint data).handle env w).1 = granted
      · rw [handle_leaseCheckpoint_of_granted hf w data hg]
        rfl
      · rw [handle_leaseCheckpoint_of_not_granted hf w data hg]
  | workflowStatus workflowId =>
      left
      rw [handle_workflowStatus, run_getWorkflow hf]
  | releaseCheckpoint data =>
      left
      rw [handle_releaseCheckpoint, run_releaseCheckpoint hf]
      rfl
  | generateIdempotencyKey data =>
      left
      rcases handle_generate_checkpoints hf w data with heq | ⟨-, heq⟩
      · rw [heq]
      · rw [heq]
        rfl

end Row

/-! ## Cleanup under a worker -/

/-- The step is a request to complete the workflow, and is accepted. -/
def Server.Completes (workflowId : String) (s : Server) : ServerLabel → Prop
  | .handle (.completeWorkflow data) env => data.workflowId = workflowId ∧
      ((Request.completeWorkflow data).handle env s.world).1 = .ok .completeWorkflow
  | _ => False

/-- A cleanup now deletes nothing of the workflow. -/
def World.SparedByCleanUp (w : World) (workflowId : String) : Prop :=
  ∀ env : Env, env.fault = .none →
    (Request.cleanUp.handle env w).2.fencingTokens workflowId = w.fencingTokens workflowId ∧
    (Request.cleanUp.handle env w).2.checkpoints workflowId = w.checkpoints workflowId ∧
    (Request.cleanUp.handle env w).2.workflows workflowId = w.workflows workflowId

/-- From `s` on, until the workflow is completed, no cleanup deletes anything
of it. -/
def Server.SparedUntilCompleted (evictable : CachedLease → Int → Bool) (s : Server)
    (workflowId : String) : Prop :=
  ∀ s', Reachable (Server.step evictable) (fun t l => ¬ t.Completes workflowId l) (· = s) s' →
    s'.world.SparedByCleanUp workflowId

/-- The workflow has no row, or one that is not completed. -/
def World.NotCompleted (w : World) (workflowId : String) : Prop :=
  ∀ row, w.workflows workflowId = some row → row.status ≠ WorkflowStatus.Completed.toInt

/-- What is not completed is not expired. -/
theorem expired_eq_false {w : World} {workflowId : String} (h : w.NotCompleted workflowId)
    (currentTimestamp : Int) :
    w.expired currentTimestamp WorkflowStatus.Completed.toInt workflowId = false := by
  rw [Bool.eq_false_iff]
  intro he
  obtain ⟨row, expireAt, hrow, -, -, hstatus⟩ := World.expired_iff.mp he
  exact h row hrow hstatus

theorem sparedByCleanUp_of_notCompleted {w : World} {workflowId : String}
    (h : w.NotCompleted workflowId) : w.SparedByCleanUp workflowId := by
  intro env hf
  rcases handle_cleanUp_cases hf w with heq | heq
  · rw [heq]
    exact ⟨rfl, rfl, rfl⟩
  · rw [heq, World.collect]
    simp [expired_eq_false h]

theorem notCompleted_upsert {w : World} {workflowId : String} (h : w.NotCompleted workflowId)
    (now : Int) (name : Option String) :
    (upsertWorkflow (w.workflows workflowId) workflowId WorkflowStatus.Running.toInt now
      name).status ≠ WorkflowStatus.Completed.toInt := by
  cases hrow : w.workflows workflowId with
  | none =>
      show WorkflowStatus.Running.toInt ≠ WorkflowStatus.Completed.toInt
      decide
  | some row => exact h row hrow

/-- A workflow that is not completed stays so until a completion is accepted. -/
theorem notCompleted_step {s s' : Server} {l : ServerLabel} {workflowId : String}
    (hs : Server.step evictable s l = some s') (hl : ¬ s.Completes workflowId l)
    (h : s.world.NotCompleted workflowId) : s'.world.NotCompleted workflowId := by
  rcases Server.step_cases hs with
    ⟨request, env, rfl, hf, rfl⟩ | ⟨elapsed, rfl, rfl⟩ | ⟨key, entry, rfl, -, -, rfl⟩
  · intro row hrow
    dsimp only [Server.record] at hrow
    rcases handle_workflow_cases hf request s.world workflowId with
      hsame | ⟨data, -, -, hnew⟩ | ⟨data, rfl, hw, hreply, -⟩ | ⟨-, hnone⟩
    · exact h row (hsame ▸ hrow)
    · rw [hnew, Option.some.injEq] at hrow
      rw [← hrow]
      exact notCompleted_upsert h _ _
    · exact absurd ⟨hw, hreply⟩ hl
    · rw [hnone] at hrow
      contradiction
  · exact h
  · exact h

/-- A completed workflow has an expiry. -/
theorem expireAt_of_completed (hr : s.Reached evictable) (id : String) :
    ∀ row, s.world.workflows id = some row → row.status = WorkflowStatus.Completed.toInt →
      ∃ expireAt, row.expireAt = some expireAt := by
  refine hr.invariant (fun s => ∀ row, s.world.workflows id = some row →
    row.status = WorkflowStatus.Completed.toInt →
      ∃ expireAt, row.expireAt = some expireAt) ?_ ?_
  · intro s hi row hrow
    obtain ⟨now, rfl⟩ := hi
    contradiction
  · intro s l s' ih _ hs row hrow hstatus
    rcases Server.step_cases hs with
      ⟨request, env, rfl, hf, rfl⟩ | ⟨elapsed, rfl, rfl⟩ | ⟨key, entry, rfl, -, -, rfl⟩
    · dsimp only [Server.record] at hrow
      rcases handle_workflow_cases hf request s.world id with
        hsame | ⟨data, -, -, hnew⟩ | ⟨data, -, rfl, -, hafter⟩ | ⟨-, hnone⟩
      · exact ih row (hsame ▸ hrow) hstatus
      · rw [hnew, Option.some.injEq] at hrow
        rw [← hrow] at hstatus ⊢
        cases hold : s.world.workflows id with
        | none =>
            rw [hold] at hstatus
            have hrunning : WorkflowStatus.Running.toInt =
              WorkflowStatus.Completed.toInt := hstatus
            exact absurd hrunning (by decide)
        | some old =>
            rw [hold] at hstatus
            exact ih old hold hstatus
      · rw [hafter, World.complete] at hrow
        cases hold : s.world.workflows data.workflowId with
        | none =>
            rw [hold] at hrow
            exact absurd (hold.symm.trans hrow) (by simp)
        | some old =>
            rw [hold] at hrow
            simp only [World.setWorkflow, Function.update_self, Option.some.injEq] at hrow
            exact ⟨_, by rw [← hrow]⟩
      · rw [hnone] at hrow
        contradiction
    · exact ih row hrow hstatus
    · exact ih row hrow hstatus

/-- Cleanup deletes the token of a workflow that is past its expiry. -/
theorem not_sparedByCleanUp {w : World} {workflowId : String} {row : Workflow}
    {expireAt token : Int} (hrow : w.workflows workflowId = some row)
    (hstatus : row.status = WorkflowStatus.Completed.toInt)
    (hexpire : row.expireAt = some expireAt) (hlt : expireAt < w.now)
    (htoken : w.fencingTokens workflowId = some token) :
    ¬ w.SparedByCleanUp workflowId := by
  intro hspared
  obtain ⟨hsame, -⟩ := hspared (.calm "" true) rfl
  have hexpired : w.expired w.now WorkflowStatus.Completed.toInt workflowId = true :=
    World.expired_iff.mpr ⟨row, expireAt, hrow, hexpire, hlt, hstatus⟩
  rw [handle_cleanUp, run_handleWorkflowCleanup rfl, htoken] at hsame
  simp [Env.calm, World.collect, hexpired] at hsame

/-- **A workflow that is started again**: from the start on, cleanup leaves it
alone until it is completed, exactly where it was not completed before. -/
theorem spared_until_completed_iff (hr : s.Reached evictable) {env : Env}
    (hf : env.fault = .none) (data : CreateWorkflowInput) :
    (s.record env (.workflowStart data)).SparedUntilCompleted evictable data.workflowId ↔
      s.world.NotCompleted data.workflowId := by
  have hworld : (s.record env (.workflowStart data)).world =
      (s.world.setWorkflow data.workflowId (upsertWorkflow (s.world.workflows data.workflowId)
        data.workflowId WorkflowStatus.Running.toInt s.world.now data.name)).setFencingToken
        data.workflowId (upsertFencingToken (s.world.fencingTokens data.workflowId) 1) := by
    rw [Server.record, handle_workflowStart, run_createWorkflow hf]
  constructor
  · intro hspared row hrow hstatus
    obtain ⟨expireAt, hexpire⟩ := expireAt_of_completed hr data.workflowId row hrow hstatus
    -- Time passes until the expiry is over.
    have htick : Server.step evictable (s.record env (.workflowStart data))
        (.tick (expireAt - s.world.now + 1).toNat) = some
          { s.record env (.workflowStart data) with
            world := (s.record env (.workflowStart data)).world.tick
              (expireAt - s.world.now + 1).toNat } := rfl
    have hticks : ¬ (s.record env (.workflowStart data)).Completes data.workflowId
        (.tick (expireAt - s.world.now + 1).toNat) := id
    have hlater := hspared _ (.step (.start rfl) hticks htick)
    have hkept : ((s.record env (.workflowStart data)).world.tick
        (expireAt - s.world.now + 1).toNat).workflows data.workflowId =
          some { row with name := data.name } := by
      rw [World.tick, hworld, hrow]
      simp [World.setWorkflow, upsertWorkflow]
    have htoken : ((s.record env (.workflowStart data)).world.tick
        (expireAt - s.world.now + 1).toNat).fencingTokens data.workflowId =
          some (upsertFencingToken (s.world.fencingTokens data.workflowId) 1) := by
      rw [World.tick, hworld]
      simp [World.setFencingToken_fencingTokens]
    have hlt : expireAt < ((s.record env (.workflowStart data)).world.tick
        (expireAt - s.world.now + 1).toNat).now := by
      rw [World.tick, hworld]
      simp only [World.setFencingToken_now, World.setWorkflow_now]
      omega
    exact not_sparedByCleanUp hkept hstatus hexpire hlt htoken hlater
  · intro hnot s' hreach
    have hinv : s'.world.NotCompleted data.workflowId := by
      refine hreach.invariant (fun t => t.world.NotCompleted data.workflowId) ?_ ?_
      · intro t hi row hrow
        rw [hi, hworld] at hrow
        simp only [World.setFencingToken_workflows, World.setWorkflow, Function.update_self,
          Option.some.injEq] at hrow
        rw [← hrow]
        exact notCompleted_upsert hnot _ _
      · intro t l t' ih hl hs
        exact notCompleted_step hs hl ih
    exact sparedByCleanUp_of_notCompleted hinv

/-- Two starts of a workflow that is completed in between. -/
theorem first_start_spared :
    Server.SparedUntilCompleted ttlPassed
      (Server.record (.calm "" true) startPay { world := .empty 0, history := [] }) "pay" :=
  (spared_until_completed_iff (.start ⟨0, rfl⟩) rfl { workflowId := "pay", name := none }).mpr
    fun _ hrow => nomatch hrow

/-- The workflow is completed and started again; a second later cleanup
deletes the token of the worker that runs it. -/
theorem restarted_workflow_collected :
    ∃ s, exec (Server.step ttlPassed) { world := .empty 0, history := [] } startThenComplete =
        some s ∧ s.Reached ttlPassed ∧
      ∃ s', exec (Server.step ttlPassed) (s.record (.calm "" true) startPay) [.tick 1001] =
          some s' ∧ s'.world.fencingTokens "pay" = some 2 ∧
        (Request.cleanUp.handle (.calm "" true) s'.world).2.fencingTokens "pay" = none ∧
        ¬ (s.record (.calm "" true) startPay).SparedUntilCompleted ttlPassed "pay" := by
  refine ⟨_, rfl, Server.reached_of_exec 0 startThenComplete rfl, _, rfl, rfl, rfl, ?_⟩
  intro hspared
  have hlater := hspared _ (.step (l := .tick 1001) (.start rfl) id rfl)
  obtain ⟨hsame, -⟩ := hlater (.calm "" true) rfl
  cases hsame

end IdempotentTransformer
