import IdempotentTransformer.Library.Progress
import IdempotentTransformer.Library.Serial
import IdempotentTransformer.Separation

/-!
# IdempotentTransformer.Liveness

No request hangs.  A handler holds at most one lock at a time and is over
after at most ten steps, choices of `tokio::join!` and locks included; so
from every state of every run, whatever calls have failed, the requests
under way can all be brought to their answers, and no schedule can keep
them from it for more than ten steps each.

* `Request.ends` — the bound, the lock discipline, and that a handler alone
  comes to the same in whatever order `tokio::join!` takes its sides, from
  each handler's text;
* `requests_answered` — the theorem over whole runs.
-/

namespace IdempotentTransformer

open Library Program

/-! ## Calls that commute -/

namespace StorageCall

variable (env : Env)

/-- The clock and a token are read and written apart. -/
theorem commutes_utcNow_insertFencingToken (workflowId : String) (token : Int) :
    Commutes (exec env) .utcNow (.insertFencingToken workflowId token) := by
  refine ⟨fun w => ?_, fun w => rfl, fun w => rfl⟩
  exact exec_now env (.insertFencingToken workflowId token) w

theorem commutes_insertWorkflow_insertFencingToken (id : String) (status createdAt : Int)
    (name : Option String) (workflowId : String) (token : Int) :
    Commutes (exec env) (.insertWorkflow id status createdAt name)
      (.insertFencingToken workflowId token) := by
  obtain ⟨fault, minted, leader⟩ := env
  cases fault <;> exact ⟨fun w => rfl, fun w => rfl, fun w => rfl⟩

theorem commutes_selectFencingToken_cacheGet (workflowId key : String) :
    Commutes (exec env) (.selectFencingToken workflowId) (.cacheGet key) := by
  obtain ⟨fault, minted, leader⟩ := env
  cases fault <;> exact ⟨fun w => rfl, fun w => rfl, fun w => rfl⟩

theorem commutes_selectFencingToken_cacheDelete (workflowId key : String) :
    Commutes (exec env) (.selectFencingToken workflowId) (.cacheDelete key) := by
  obtain ⟨fault, minted, leader⟩ := env
  cases fault <;> exact ⟨fun w => rfl, fun w => rfl, fun w => rfl⟩

/-- Both deletions go by the rows of the workflows, which neither changes. -/
theorem commutes_deleteFencingTokens_deleteCheckpoints (at₁ status₁ at₂ status₂ : Int) :
    Commutes (exec env) (.deleteFencingTokens at₁ status₁)
      (.deleteCheckpoints at₂ status₂) := by
  obtain ⟨fault, minted, leader⟩ := env
  cases fault <;> exact ⟨fun w => rfl, fun w => rfl, fun w => rfl⟩

end StorageCall

/-! ## The rules for handlers -/

namespace Handler

variable {α β : Type} {m n : Nat}

/-- How a handler ends. -/
structure Ends (n : Nat) (h : Handler α) : Prop where
  /-- After at most `n` steps. -/
  within : h.program.Within n
  /-- With one lock at a time, and none left. -/
  locks : h.program.Locks none
  /-- Alone, in the same way whatever the scheduler's choices. -/
  decided : ∀ env, h.program.Decided (StorageCall.exec env)

theorem Ends.mono {h : Handler α} (hm : h.Ends m) (hle : m ≤ n) : h.Ends n :=
  { hm with within := hm.within.mono hle }

theorem ends_ret (r : Except HandlerError α) : (⟨.ret r⟩ : Handler α).Ends 0 :=
  ⟨within_ret 0 _, rfl, fun _ => decided_ret r⟩

theorem ends_pure (a : α) : (pure a : Handler α).Ends 0 := ends_ret _

theorem ends_fail (e : HandlerError) : (fail e : Handler α).Ends 0 := ends_ret _

theorem ends_ofResult (r : Except HandlerError α) : (ofResult r).Ends 0 := ends_ret _

/-- What follows a result of a handler ends as the handler it goes on with. -/
private theorem ends_andThen {f : α → Handler β} (hf : ∀ a, (f a).Ends n)
    (r : Except HandlerError α) : (⟨andThen f r⟩ : Handler β).Ends n := by
  cases r with
  | ok a => exact hf a
  | error e => exact (ends_ret (.error e)).mono (Nat.zero_le n)

theorem ends_bind {h : Handler α} {f : α → Handler β} (hm : h.Ends m) (hf : ∀ a, (f a).Ends n) :
    (h >>= f).Ends (m + n) where
  within := within_bind hm.within fun r => (ends_andThen hf r).within
  locks := locks_bind hm.locks fun r => (ends_andThen hf r).locks
  decided env := decided_bind (hm.decided env) fun r => (ends_andThen hf r).decided env

/-- The sides of a `tokio::join!` have no locks of their own, and their calls
commute. -/
theorem ends_join {a : Handler α} {b : Handler β} {C D : StorageCall → Prop} (ha : a.Ends m)
    (hb : b.Ends n) (hca : a.Confined C (fun _ => False)) (hcb : b.Confined D (fun _ => False))
    (hcomm : ∀ env call call', C call → D call' → Commutes (StorageCall.exec env) call call') :
    (Handler.join a b).Ends (2 * m + 2 * n) where
  within := within_bind (n := 0) (within_join ha.within hb.within) fun _ => within_ret 0 _
  locks := by
    have hboth := Program.confined_join (C := fun _ => True)
      (hca.mono (fun _ _ => trivial) fun _ h => h) (hcb.mono (fun _ _ => trivial) fun _ h => h)
    exact locks_bind hboth.locks fun _ => rfl
  decided env :=
    decided_bind (decided_join hca hcb (hcomm env) (ha.decided env) (hb.decided env))
    fun _ => decided_ret _

/-- A lock whose guard is dropped at once. -/
theorem ends_guarded (key : String) {rest : Handler α} (h : rest.Ends n) :
    (do lock key; dropGuard key; rest : Handler α).Ends (n + 2) where
  within taken := by
    cases taken with
    | true => exact h.within
    | false => exact within_ret _ _
  locks := ⟨rfl, ⟨rfl, h.locks⟩, rfl⟩
  decided env := h.decided env

theorem ends_await {p : Program StorageCall StorageCall.Reply String (Except HiqliteError α)}
    (hw : p.Within n) (hd : p.Direct) : (Handler.await p).Ends n where
  within := within_bind (n := 0) hw fun _ => within_ret 0 _
  locks := locks_bind hd.locks fun _ => rfl
  decided _ := decided_bind hd.decided fun _ => decided_ret _

theorem ends_read {p : Program StorageCall StorageCall.Reply String α} (hw : p.Within n)
    (hd : p.Direct) : (Handler.read p).Ends n where
  within := within_bind (n := 0) hw fun _ => within_ret 0 _
  locks := locks_bind hd.locks fun _ => rfl
  decided _ := decided_bind hd.decided fun _ => decided_ret _

end Handler

section Ends

open Handler

theorem within_send (call : StorageCall) : call.send.Within 1 := fun _ => within_ret 0 _

theorem direct_send (call : StorageCall) : call.send.Direct := fun _ => trivial

theorem ends_returnErrorIfTrue (condition : Bool) (status : HandlerError) :
    (returnErrorIfTrue condition status).Ends 0 := by
  cases condition with
  | true => exact ends_fail status
  | false => exact ends_pure ()

theorem ends_utcNow : utcNow.Ends 1 := ends_read (within_send _) (direct_send _)

theorem ends_diffLeaseExpiryFromNow (leased : LeasedCheckpointValue) :
    (diffLeaseExpiryFromNow leased).Ends 1 := ends_bind ends_utcNow fun _ => ends_pure _

theorem ends_getCheckpoint (workflowId : String) (position : Int) :
    (getCheckpoint workflowId position).Ends 1 := ends_await (within_send _) (direct_send _)

theorem ends_createCheckpoint (workflowId : String) (value : Option Bytes) (position : Int)
    (idempotencyKey : String) :
      (createCheckpoint workflowId value position idempotencyKey).Ends 2 :=
  ends_bind (n := 1) ends_utcNow fun _ => ends_await (within_send _) (direct_send _)

theorem ends_leaseCheckpoint (workflowId : String) (position leaseTimeout : Int) :
    (leaseCheckpoint workflowId position leaseTimeout).Ends 2 :=
  ends_bind (n := 1) ends_utcNow fun _ =>
    ends_bind (n := 0) (ends_await (within_send _) (direct_send _)) fun _ => ends_pure _

theorem ends_removeLeasedCheckpoint (workflowId : String) (position : Int) :
    (removeLeasedCheckpoint workflowId position).Ends 2 :=
  ends_bind (m := 1) (ends_await (within_send _) (direct_send _)) fun _ =>
    ends_bind (m := 1) (ends_await (within_send _) (direct_send _)) fun _ => ends_pure _

theorem ends_getWorkflowFencingToken (workflowId : String) :
    (getWorkflowFencingToken workflowId).Ends 1 := ends_await (within_send _) (direct_send _)

/-! ## The handlers -/

theorem createWorkflow_ends (data : CreateWorkflowInput) : (createWorkflow data).Ends 6 := by
  have hjoin := ends_join
    (ends_bind ends_utcNow fun createdAt => ends_await
      (within_send
        (.insertWorkflow data.workflowId WorkflowStatus.Running.toInt createdAt data.name))
      (direct_send _))
    (ends_await (within_send (.insertFencingToken data.workflowId 1)) (direct_send _))
    (C := fun call => call = .utcNow ∨ ∃ createdAt, call = .insertWorkflow data.workflowId
      WorkflowStatus.Running.toInt createdAt data.name)
    (D := (· = .insertFencingToken data.workflowId 1))
    (confined_bind (confined_utcNow (.inl rfl)) fun createdAt =>
      confined_await (confined_send (.inr ⟨createdAt, rfl⟩)))
    (confined_await (confined_send rfl)) (by
      rintro env call _ (rfl | ⟨createdAt, rfl⟩) rfl
      · exact StorageCall.commutes_utcNow_insertFencingToken env _ _
      · exact StorageCall.commutes_insertWorkflow_insertFencingToken env _ _ _ _ _ _)
  exact ends_bind hjoin fun results => ends_bind (ends_ofResult _) fun _ => ends_pure _

theorem storeResult_ends (data : CheckpointInput) (abort : Bool) :
    (storeResult data abort).Ends 2 :=
  ends_bind (ends_createCheckpoint _ _ _ _) fun _ => ends_pure _

theorem handleCheckpoint_ends (data : CheckpointInput) : (handleCheckpoint data).Ends 9 := by
  have hjoin := ends_join (ends_getWorkflowFencingToken data.workflowId)
    (ends_removeLeasedCheckpoint data.workflowId data.position)
    (C := (· = .selectFencingToken data.workflowId))
    (D := fun call => call =
      .cacheGet (generateLeasedCheckpointKey data.workflowId data.position) ∨
      call = .cacheDelete (generateLeasedCheckpointKey data.workflowId data.position))
    (confined_await (confined_send rfl))
      (confined_removeLeasedCheckpoint (.inl rfl) (.inr rfl)) (by
      rintro env _ call rfl (rfl | rfl)
      · exact StorageCall.commutes_selectFencingToken_cacheGet env _ _
      · exact StorageCall.commutes_selectFencingToken_cacheDelete env _ _)
  refine ends_bind hjoin fun results => ends_bind (n := 3) (ends_ofResult _) fun stored =>
    ends_bind (n := 3) (ends_ofResult _) fun leased =>
      ends_bind (n := 3) (ends_returnErrorIfTrue _ _) fun _ => ?_
  cases leased with
  | none => exact (storeResult_ends data _).mono (by omega)
  | some leased =>
      refine ends_bind (n := 2) (ends_diffLeaseExpiryFromNow leased) fun remaining => ?_
      dsimp only
      split
      · exact ends_bind (ends_returnErrorIfTrue _ _) fun _ => storeResult_ends data _
      · exact storeResult_ends data _

theorem grantLease_ends (data : LeaseCheckpointInput) (token : Option Int) :
    (grantLease data token).Ends 2 := by
  rw [grantLease]
  refine ends_bind (n := 2) (ends_returnErrorIfTrue _ _) fun _ =>
    ends_bind (n := 2) (ends_returnErrorIfTrue _ _) fun _ => ?_
  split
  · exact ends_bind (ends_leaseCheckpoint _ _ _) fun _ => ends_pure _
  · exact (ends_fail _).mono (by omega)

theorem handleLeaseCheckpoint_ends (data : LeaseCheckpointInput) :
    (handleLeaseCheckpoint data).Ends 10 := by
  rw [handleLeaseCheckpoint_eq]
  refine ends_bind (n := 9) (ends_getCheckpoint _ _) fun result => ?_
  cases result with
  | some row =>
      refine Ends.mono (m := 0) ?_ (by omega)
      exact ends_bind (ends_returnErrorIfTrue _ _) fun _ =>
        ends_bind (ends_returnErrorIfTrue _ _) fun _ => ends_pure _
  | none =>
      refine ends_guarded (n := 7) _ ?_
      have hjoin := ends_join
        (ends_await
          (within_send (.cacheGet (generateLeasedCheckpointKey data.workflowId data.position)))
          (direct_send _))
        (ends_getWorkflowFencingToken data.workflowId)
        (C := (· = .cacheGet (generateLeasedCheckpointKey data.workflowId data.position)))
        (D := (· = .selectFencingToken data.workflowId))
        (confined_await (confined_send rfl)) (confined_await (confined_send rfl)) (by
          rintro env _ _ rfl rfl
          exact (StorageCall.commutes_selectFencingToken_cacheGet env _ _).symm)
      refine ends_bind hjoin fun results => ends_bind (n := 3) (ends_ofResult _) fun leased =>
        ends_bind (n := 3) (ends_ofResult _) fun stored => ?_
      cases leased with
      | none => exact (grantLease_ends data stored).mono (by omega)
      | some leased =>
          refine ends_bind (n := 2) (ends_diffLeaseExpiryFromNow leased) fun remaining => ?_
          dsimp only
          split
          · exact (ends_pure _).mono (by omega)
          · exact grantLease_ends data stored

theorem releaseCheckpoint_ends
    (data : ReleaseCheckpointInput) : (releaseCheckpoint data).Ends 2 :=
  ends_bind (ends_removeLeasedCheckpoint _ _) fun _ => ends_pure _

theorem createDurableIdempotencyKey_ends (data : CreateDurableIdempotencyKeyInput) :
    (createDurableIdempotencyKey data).Ends 7 := by
  refine ends_guarded (n := 5) _ (ends_bind (n := 4) (ends_getCheckpoint _ _) fun result => ?_)
  cases result with
  | some row => exact (ends_pure _).mono (by omega)
  | none =>
      refine ends_bind (n := 3) (ends_getWorkflowFencingToken _) fun token =>
        ends_bind (n := 3) (ends_returnErrorIfTrue _ _) fun _ =>
          ends_bind (n := 3) (ends_returnErrorIfTrue _ _) fun _ =>
            ends_bind (n := 2) (ends_read (within_send .newV4) (direct_send _)) fun minted => ?_
      exact ends_bind (ends_createCheckpoint _ _ _ _) fun _ => ends_pure _

theorem finishWorkflow_ends (data : FinishWorkflowInput) : (finishWorkflow data).Ends 4 := by
  refine ends_bind (n := 3) (ends_getWorkflowFencingToken _) fun token =>
    ends_bind (n := 3) (ends_returnErrorIfTrue _ _) fun _ =>
      ends_bind (n := 3) (ends_returnErrorIfTrue _ _) fun _ =>
        ends_bind (n := 2) ends_utcNow fun _ => ends_bind (n := 1) ends_utcNow fun _ => ?_
  exact ends_await (within_send _) (direct_send _)

theorem handleWorkflowCleanup_ends : handleWorkflowCleanup.Ends 7 := by
  refine ends_bind (n := 6) (ends_read (within_send .isLeaderDb) (direct_send _))
    fun leader => ?_
  cases leader with
  | false => exact (ends_pure ()).mono (by omega)
  | true =>
      refine ends_bind (n := 5) ends_utcNow fun currentTimestamp => ?_
      have hjoin := ends_join
        (ends_await (within_send (.deleteFencingTokens currentTimestamp
          WorkflowStatus.Completed.toInt)) (direct_send _))
        (ends_await (within_send (.deleteCheckpoints currentTimestamp
          WorkflowStatus.Completed.toInt)) (direct_send _))
        (C := (· = .deleteFencingTokens currentTimestamp WorkflowStatus.Completed.toInt))
        (D := (· = .deleteCheckpoints currentTimestamp WorkflowStatus.Completed.toInt))
        (confined_await (confined_send rfl)) (confined_await (confined_send rfl)) (by
          rintro env _ _ rfl rfl
          exact StorageCall.commutes_deleteFencingTokens_deleteCheckpoints env _ _ _ _)
      refine ends_bind (n := 1) hjoin fun results =>
        ends_bind (n := 1) (ends_ofResult _) fun _ =>
        ends_bind (n := 1) (ends_ofResult _) fun _ => ?_
      exact ends_await (within_send _) (direct_send _)

/-- **Every handler ends**: after at most ten steps of its own, with no lock
left. -/
theorem Request.ends (request : Request) : request.handler.Ends 10 := by
  have hwrap : ∀ {α : Type} {h : Handler α} {n : Nat} (f : α → Response), h.Ends n → n ≤ 10 →
      (h >>= fun a => pure (f a)).Ends 10 :=
    fun f h hle => (ends_bind h fun a => ends_pure (f a)).mono hle
  cases request with
  | workflowStart data => exact hwrap _ (createWorkflow_ends data) (by omega)
  | checkpoint data => exact hwrap _ (handleCheckpoint_ends data) (by omega)
  | leaseCheckpoint data => exact hwrap _ (handleLeaseCheckpoint_ends data) (by omega)
  | completeWorkflow data => exact hwrap _ (finishWorkflow_ends data) (by omega)
  | workflowStatus workflowId =>
      exact hwrap _ (ends_await (within_send _) (direct_send _)) (by omega : 1 ≤ 10)
  | releaseCheckpoint data => exact hwrap _ (releaseCheckpoint_ends data) (by omega)
  | generateIdempotencyKey data =>
      exact hwrap _ (createDurableIdempotencyKey_ends data) (by omega)
  | cleanUp => exact hwrap _ handleWorkflowCleanup_ends (by omega)

end Ends

/-! ## Runs -/

section Runs

variable {evictable : CachedLease → Int → Bool} {P : Handlers}

theorem answer_eq_none_iff
    {p : Process StorageCall StorageCall.Reply String (Except HandlerError Response) Request} :
    answer p = none ↔ ∀ result, p.rest ≠ .ret result := by
  unfold answer
  cases p.rest <;> simp

/-- **No request hangs.**  However a run goes on, no request makes more than ten
steps, and while one is unanswered some request can make its next step,
whatever comes of the call.  Left to themselves, the requests under way can all
be brought to their answers, whatever is chosen to come of each call as it is
made. -/
theorem requests_answered (hr : P.Reached evictable) :
    (∀ ls P', exec (Pool.step (serverMachine evictable)) P ls = some P' →
      (∀ pid, (Pool.movers ls).count pid ≤ 10) ∧
      ∀ pid p, P'.procs pid = some p → answer p = none →
        ∃ mover q, P'.procs mover = some q ∧ answer q = none ∧ ∀ env, ∃ P'',
          Pool.step (serverMachine evictable) P' (.advance mover true env) = some P'') ∧
    ∀ choose : List (Pool.Label Request Env Drift) → Nat → Env, ∃ ls P', Pool.Driven choose ls ∧
      exec (Pool.step (serverMachine evictable)) P ls = some P' ∧
      ∀ pid p, P'.procs pid = some p → ∃ result, answer p = some result := by
  have hprograms : ∀ request, ((serverMachine evictable).program request).Within 10 :=
    fun request => request.ends.within
  have hlocks : ∀ request, ((serverMachine evictable).program request).Locks none :=
    fun request => request.ends.locks
  refine ⟨fun ls P' hrun => ⟨fun pid => ?_, fun pid p hp hnone => ?_⟩, fun choose => ?_⟩
  · refine Pool.count_movers_le_of_programs hprograms (fun p hp => ?_) hrun
    exact Pool.within_of_reachable hprograms hr hp
  · obtain ⟨holding, hh⟩ := Pool.exists_holding hlocks (.of_exec hr hrun)
    obtain ⟨mover, q, hq, hgoes, -, hmoves⟩ :=
      Pool.exists_advance (M := serverMachine evictable) hh hp (answer_eq_none_iff.mp hnone)
    exact ⟨mover, q, hq, answer_eq_none_iff.mpr hgoes, hmoves⟩
  · obtain ⟨ls, P', hls, hrun, hquiet⟩ := Pool.exists_quiet hprograms hlocks hr choose
    refine ⟨ls, P', hls, hrun, fun pid p hp => ?_⟩
    obtain ⟨result, hresult⟩ := hquiet pid p hp
    exact ⟨result, answer_eq_some.mpr hresult⟩

/-- One lease request has the lock, the other waits for it. -/
def leasesAtTheLock : List (Pool.Label Request Env Drift) :=
  arrives 0 payStart 5 ++ arrives 1 (payLease 1) 2 ++ arrives 2 (payLease 1) 1

theorem leases_at_the_lock_answered :
    ∃ P : Handlers, runLabels leasesAtTheLock = some P ∧ P.held "pay:0" = true ∧
      ∀ choose : List (Pool.Label Request Env Drift) → Nat → Env, ∃ ls P',
        Pool.Driven choose ls ∧
        exec (Pool.step (serverMachine leaseExpired)) P ls = some P' ∧
        ∀ pid p, P'.procs pid = some p → ∃ result, answer p = some result := by
  obtain ⟨P, hP⟩ : ∃ P, runLabels leasesAtTheLock = some P := Option.isSome_iff_exists.mp rfl
  refine ⟨P, hP, eq_of_runLabels hP (fun P => P.held "pay:0") (by decide +kernel), ?_⟩
  exact (requests_answered (reached_of_runLabels hP)).2

end Runs

end IdempotentTransformer
