import IdempotentTransformer.Interleaving

/-!
# IdempotentTransformer.Lifecycle

What the stored data looks like at every moment of every run, and the life
of a workflow's row.

* `Carries` is what a handler's writes carry, kept by every handler
  (`Request.keeps_carries`): the statuses the enum has, times the handler
  has read off the clock, the first token `1`;
* `World.WellFormed` follows for every world of a run, whatever the order of
  the calls and the faults (`store_wellFormed`); so the conversion of a row
  (`Workflow.fromRow`) never meets a status it panics at;
* `Life` is the state machine the rows go through, and the server refines
  it (`lifecycle_refines`);
* `status_goes_forward` — what two status requests read, one after the
  other.
-/

namespace IdempotentTransformer

open Library Program

variable {evictable : CachedLease → Int → Bool}

/-! ## What the writes carry -/

/-- What a handler's writes carry. -/
def Carries (log : CallLog) : StorageCall → Prop
  | .insertWorkflow _ status createdAt _ =>
      status = WorkflowStatus.Running.toInt ∧ Replied log .utcNow createdAt
  | .insertFencingToken _ fencingToken => fencingToken = 1
  | .updateWorkflow expireAt status completedAt _ =>
      status = WorkflowStatus.Completed.toInt ∧ Replied log .utcNow completedAt ∧
        i64Min ≤ expireAt ∧ expireAt ≤ i64Max
  | .insertCheckpoint _ _ _ _ createdAt => Replied log .utcNow createdAt
  | .deleteWorkflows currentTimestamp status =>
      status = WorkflowStatus.Completed.toInt ∧ Replied log .utcNow currentTimestamp
  | .cachePut key lease ttl =>
      (∃ workflowId position, key = generateLeasedCheckpointKey workflowId position) ∧
        Replied log .utcNow lease.createdAt ∧ ttl = cacheTtl lease.leaseTimeout
  | _ => True

theorem carries_stable : Stable Carries := by
  intro log log' call hl h
  cases call with
  | insertWorkflow id status createdAt name => exact ⟨h.1, h.2.mono hl⟩
  | updateWorkflow expireAt status completedAt id => exact ⟨h.1, h.2.1.mono hl, h.2.2⟩
  | insertCheckpoint workflowId position key value createdAt => exact Replied.mono h hl
  | deleteWorkflows currentTimestamp status => exact ⟨h.1, h.2.mono hl⟩
  | cachePut key lease ttl => exact ⟨h.1, h.2.1.mono hl, h.2.2⟩
  | _ => exact h

/-- `+` on `i64` stays in `i64`. -/
theorem wrappingAdd_mem (a b : Int) : i64Min ≤ wrappingAdd a b ∧ wrappingAdd a b ≤ i64Max := by
  have hlow : -((2 ^ 64 : Nat) / 2 : Int) ≤ (a + b).bmod (2 ^ 64) := Int.le_bmod (by decide)
  have hhigh : (a + b).bmod (2 ^ 64) < ((2 ^ 64 : Nat) + 1 : Int) / 2 := Int.bmod_lt (by decide)
  simp only [wrappingAdd, i64Min, i64Max]
  omega

namespace Handler

variable {α β : Type} {C : CallLog → StorageCall → Prop}

/-- Wherever the handler starts, its calls meet `C`. -/
def Keeps (C : CallLog → StorageCall → Prop) (m : Handler α) : Prop :=
  ∀ log, m.Obeys C (fun _ _ => True) log

theorem keeps_pure (a : α) : (pure a : Handler α).Keeps C := fun _ => trivial

theorem keeps_fail (e : HandlerError) : (fail e : Handler α).Keeps C := fun _ => trivial

theorem keeps_ofResult (r : Except HandlerError α) : (ofResult r).Keeps C := fun _ => trivial

theorem keeps_lock (key : String) : (lock key).Keeps C := fun _ _ => trivial

theorem keeps_dropGuard (key : String) : (dropGuard key).Keeps C := fun _ => trivial

theorem keeps_bind {m : Handler α} {f : α → Handler β} (hm : m.Keeps C)
    (hf : ∀ a, (f a).Keeps C) :
    (m >>= f).Keeps C := by
  intro log
  rw [obeys_bind]
  refine (hm log).imp fun log' r _ _ => ?_
  cases r with
  | ok a => exact hf a log'
  | error e => trivial

theorem keeps_join (hC : Stable C) {a : Handler α} {b : Handler β} (ha : a.Keeps C)
    (hb : b.Keeps C) : (join a b).Keeps C :=
  fun log => obeys_join hC (fun _ _ _ _ h => h) (fun _ _ _ _ h => h) (ha log) (hb log)
    fun _ _ _ _ _ _ => trivial

end Handler

theorem keeps_returnErrorIfTrue {C : CallLog → StorageCall → Prop} (condition : Bool)
    (status : HandlerError) : (returnErrorIfTrue condition status).Keeps C := by
  cases condition
  · exact Handler.keeps_pure ()
  · exact Handler.keeps_fail status

section Carries

open Handler

variable (workflowId : String) (position : Int)

theorem keeps_getCheckpoint : (getCheckpoint workflowId position).Keeps Carries :=
  fun _ => ⟨trivial, fun _ => trivial⟩

theorem keeps_getLeasedCheckpoint : (getLeasedCheckpoint workflowId position).Keeps Carries :=
  fun _ => ⟨trivial, fun _ => trivial⟩

theorem keeps_getWorkflowFencingToken : (getWorkflowFencingToken workflowId).Keeps Carries :=
  fun _ => ⟨trivial, fun _ => trivial⟩

theorem keeps_diffLeaseExpiryFromNow (leased : LeasedCheckpointValue) :
    (diffLeaseExpiryFromNow leased).Keeps Carries := fun _ => ⟨trivial, fun _ => trivial⟩

theorem keeps_newV4 : newV4.Keeps Carries := fun _ => ⟨trivial, fun _ => trivial⟩

/-- A row is created at a time just read. -/
theorem keeps_createCheckpoint (value : Option Bytes) (idempotencyKey : String) :
    (createCheckpoint workflowId value position idempotencyKey).Keeps Carries := by
  intro log
  rw [createCheckpoint, Handler.obeys_bind, obeys_utcNow]
  exact ⟨trivial, fun now => ⟨replied_self, fun _ => trivial⟩⟩

theorem keeps_removeLeasedCheckpoint :
    (removeLeasedCheckpoint workflowId position).Keeps Carries :=
  fun _ => obeys_removeLeasedCheckpoint _ _ trivial (fun _ => trivial) fun _ _ _ => trivial

/-- A lease is created at a time just read, and cached under its own key. -/
theorem keeps_leaseCheckpoint (leaseTimeout : Int) :
    (leaseCheckpoint workflowId position leaseTimeout).Keeps Carries := by
  intro log
  rw [obeys_leaseCheckpoint]
  exact ⟨trivial, fun now => ⟨⟨⟨_, _, rfl⟩, replied_self, rfl⟩, fun _ => trivial⟩⟩

theorem keeps_createWorkflow (data : CreateWorkflowInput) :
    (createWorkflow data).Keeps Carries := by
  rw [createWorkflow]
  refine keeps_bind (keeps_join carries_stable ?_ fun log => ⟨rfl, fun _ => trivial⟩) fun _ =>
    keeps_bind (keeps_ofResult _) fun _ => keeps_pure _
  intro log
  rw [createOrGetWorkflow, Handler.obeys_bind, obeys_utcNow]
  exact ⟨trivial, fun now => ⟨⟨rfl, replied_self⟩, fun _ => trivial⟩⟩

theorem keeps_storeResult (data : CheckpointInput) (abort : Bool) :
    (storeResult data abort).Keeps Carries :=
  keeps_bind (keeps_createCheckpoint _ _ _ _) fun _ => keeps_pure _

theorem keeps_handleCheckpoint (data : CheckpointInput) :
    (handleCheckpoint data).Keeps Carries := by
  rw [handleCheckpoint]
  refine keeps_bind (keeps_join carries_stable (keeps_getWorkflowFencingToken _)
    (keeps_removeLeasedCheckpoint _ _)) fun results => ?_
  refine keeps_bind (keeps_ofResult results.1) fun stored =>
    keeps_bind (keeps_ofResult results.2)
    fun found => keeps_bind (keeps_returnErrorIfTrue _ _) fun _ => ?_
  cases found with
  | none => exact keeps_storeResult data _
  | some leased =>
      refine keeps_bind (keeps_diffLeaseExpiryFromNow leased) fun remaining => ?_
      split
      · exact keeps_bind (keeps_returnErrorIfTrue _ _) fun _ => keeps_storeResult data _
      · exact keeps_storeResult data _

theorem keeps_grantLease (data : LeaseCheckpointInput) (token : Option Int) :
    (grantLease data token).Keeps Carries := by
  rw [grantLease]
  refine keeps_bind (keeps_returnErrorIfTrue _ _) fun _ =>
    keeps_bind (keeps_returnErrorIfTrue _ _) fun _ => ?_
  split
  · exact keeps_bind (keeps_leaseCheckpoint _ _ _) fun _ => keeps_pure _
  · exact keeps_fail _

theorem keeps_handleLeaseCheckpoint (data : LeaseCheckpointInput) :
    (handleLeaseCheckpoint data).Keeps Carries := by
  rw [handleLeaseCheckpoint_eq]
  refine keeps_bind (keeps_getCheckpoint _ _) fun row => ?_
  cases row with
  | some checkpoint =>
      exact keeps_bind (keeps_returnErrorIfTrue _ _) fun _ =>
        keeps_bind (keeps_returnErrorIfTrue _ _) fun _ => keeps_pure _
  | none =>
      refine keeps_bind (keeps_lock _) fun _ => keeps_bind (keeps_dropGuard _) fun _ =>
        keeps_bind (keeps_join carries_stable (keeps_getLeasedCheckpoint _ _)
          (keeps_getWorkflowFencingToken _)) fun results => ?_
      refine keeps_bind (keeps_ofResult results.1) fun found =>
        keeps_bind (keeps_ofResult results.2) fun stored => ?_
      cases found with
      | none => exact keeps_grantLease data stored
      | some leased =>
          refine keeps_bind (keeps_diffLeaseExpiryFromNow leased) fun remaining => ?_
          split
          · exact keeps_pure _
          · exact keeps_grantLease data stored

theorem keeps_createDurableIdempotencyKey (data : CreateDurableIdempotencyKeyInput) :
    (createDurableIdempotencyKey data).Keeps Carries := by
  rw [createDurableIdempotencyKey]
  refine keeps_bind (keeps_lock _) fun _ => keeps_bind (keeps_dropGuard _) fun _ =>
    keeps_bind (keeps_getCheckpoint _ _) fun row => ?_
  cases row with
  | some checkpoint => exact keeps_pure _
  | none =>
      exact keeps_bind (keeps_getWorkflowFencingToken _) fun token =>
        keeps_bind (keeps_returnErrorIfTrue _ _) fun _ =>
        keeps_bind (keeps_returnErrorIfTrue _ _) fun _ => keeps_bind keeps_newV4 fun key =>
        keeps_bind (keeps_createCheckpoint _ _ _ _) fun _ => keeps_pure _

/-- A completion is dated by the second reading of the clock. -/
theorem keeps_finishWorkflow (data : FinishWorkflowInput) :
    (finishWorkflow data).Keeps Carries := by
  rw [finishWorkflow]
  refine keeps_bind (keeps_getWorkflowFencingToken _) fun token =>
    keeps_bind (keeps_returnErrorIfTrue _ _) fun _ =>
    keeps_bind (keeps_returnErrorIfTrue _ _) fun _ => fun log => ?_
  rw [Handler.obeys_bind, obeys_utcNow]
  refine ⟨trivial, fun now => ?_⟩
  rw [Handler.Then, Handler.obeys_bind, obeys_utcNow]
  exact ⟨trivial, fun completedAt =>
    ⟨⟨rfl, replied_self, wrappingAdd_mem now data.expireAfter⟩, fun _ => trivial⟩⟩

/-- All statements of a cleanup carry the one time it has read. -/
theorem keeps_handleWorkflowCleanup : handleWorkflowCleanup.Keeps Carries := by
  rw [handleWorkflowCleanup]
  refine keeps_bind (fun log => ⟨trivial, fun _ => trivial⟩) fun leader => ?_
  cases leader with
  | false => exact keeps_pure ()
  | true =>
      intro log
      simp only [Handler.Then, Bool.not_true, Bool.false_eq_true, if_false, Handler.obeys_bind,
        obeys_utcNow]
      refine ⟨trivial, fun now => ?_⟩
      have htokens : (deleteExpiredWorkflowFencingTokens now
          WorkflowStatus.Completed.toInt).Keeps Carries := fun _ => ⟨trivial, fun _ => trivial⟩
      have hcheckpoints : (deleteExpiredCheckpoints now
          WorkflowStatus.Completed.toInt).Keeps Carries := fun _ => ⟨trivial, fun _ => trivial⟩
      refine Handler.obeys_join carries_stable (fun _ _ _ _ h => h) (fun _ _ _ _ h => h)
        (htokens _) (hcheckpoints _) fun log' tokens checkpoints hl _ _ => ?_
      cases tokens with
      | error e => trivial
      | ok u =>
          cases checkpoints with
          | error e => trivial
          | ok u' => exact ⟨⟨rfl, replied_self.mono hl⟩, fun _ => trivial⟩

/-- **Every handler's writes carry what they must.** -/
theorem Request.keeps_carries (request : Request) : request.handler.Keeps Carries := by
  cases request with
  | workflowStart data => exact keeps_bind (keeps_createWorkflow data) fun _ => keeps_pure _
  | checkpoint data => exact keeps_bind (keeps_handleCheckpoint data) fun _ => keeps_pure _
  | leaseCheckpoint data =>
      exact keeps_bind (keeps_handleLeaseCheckpoint data) fun _ => keeps_pure _
  | completeWorkflow data => exact keeps_bind (keeps_finishWorkflow data) fun _ => keeps_pure _
  | workflowStatus workflowId =>
      exact keeps_bind (m := getWorkflow workflowId) (fun log => ⟨trivial, fun _ => trivial⟩)
        fun _ => keeps_pure _
  | releaseCheckpoint data =>
      exact keeps_bind (m := IdempotentTransformer.releaseCheckpoint data)
        (keeps_bind (keeps_removeLeasedCheckpoint _ _) fun _ => keeps_pure _)
          fun _ => keeps_pure _
  | generateIdempotencyKey data =>
      exact keeps_bind (keeps_createDurableIdempotencyKey data) fun _ => keeps_pure _
  | cleanUp => exact keeps_bind keeps_handleWorkflowCleanup fun _ => keeps_pure _

end Carries

/-! ## Well-formed worlds -/

/-- A row of `Workflows` as the statements leave it: under its own key, and
either running or completed as a whole. -/
structure Workflow.WellFormed (row : Workflow) (id : String) (now : Int) : Prop where
  key : row.id = id
  created : row.createdAt ≤ now
  state : (row.status = WorkflowStatus.Running.toInt ∧ row.expireAt = none ∧
      row.completedAt = none) ∨
    ∃ expireAt completedAt, row.status = WorkflowStatus.Completed.toInt ∧
      row.expireAt = some expireAt ∧ row.completedAt = some completedAt ∧
      completedAt ≤ now ∧ i64Min ≤ expireAt ∧ expireAt ≤ i64Max

/-- A cached lease as `lease_checkpoint` leaves it. -/
structure CachedLease.WellFormed (entry : CachedLease) (key : String) (now : Int) : Prop where
  key : ∃ workflowId position, key = generateLeasedCheckpointKey workflowId position
  created : entry.lease.createdAt ≤ entry.putAt
  put : entry.putAt ≤ now
  ttl : entry.ttl = cacheTtl entry.lease.leaseTimeout

/-- Everything stored is as some handler has left it. -/
structure World.WellFormed (w : World) : Prop where
  workflows : ∀ id row, w.workflows id = some row → row.WellFormed id w.now
  fencingTokens : ∀ id token, w.fencingTokens id = some token → 1 ≤ token
  checkpoints : ∀ id position row, w.checkpoints id position = some row → row.createdAt ≤ w.now
  cache : ∀ key entry, w.cache key = some entry → entry.WellFormed key w.now

theorem Workflow.WellFormed.mono {row : Workflow} {id : String} {now now' : Int}
    (h : row.WellFormed id now) (hle : now ≤ now') : row.WellFormed id now' where
  key := h.key
  created := h.created.trans hle
  state := by
    rcases h.state with hrunning | ⟨expireAt, completedAt, hstatus, he, hc, hcle, hrange⟩
    · exact .inl hrunning
    · exact .inr ⟨expireAt, completedAt, hstatus, he, hc, hcle.trans hle, hrange⟩

/-- An empty store is well formed. -/
theorem World.WellFormed.empty (now : Int) : (World.empty now).WellFormed where
  workflows := fun _ _ h => by cases h
  fencingTokens := fun _ _ h => by cases h
  checkpoints := fun _ _ _ h => by cases h
  cache := fun _ _ h => by cases h

/-- Drift keeps a world well formed: it only ages what is stored. -/
theorem World.WellFormed.drift {w w' : World} (h : w.WellFormed) (hd : w.Drifts evictable w') :
    w'.WellFormed where
  workflows := by
    rw [hd.workflows]
    exact fun id row hrow => (h.workflows id row hrow).mono hd.now
  fencingTokens := by
    rw [hd.fencingTokens]
    exact h.fencingTokens
  checkpoints := by
    rw [hd.checkpoints]
    exact fun id position row hrow => (h.checkpoints id position row hrow).trans hd.now
  cache := by
    intro key entry hentry
    rcases hd.cache key with hsame | ⟨hnone, -⟩
    · rw [hsame] at hentry
      have hold := h.cache key entry hentry
      exact ⟨hold.key, hold.created, hold.put.trans hd.now, hold.ttl⟩
    · rw [hnone] at hentry
      contradiction

/-- Only what is stored under a new key, or anew, has to be looked at. -/
theorem World.WellFormed.setWorkflow {w : World} (h : w.WellFormed) {id : String}
    {row : Workflow} (hrow : row.WellFormed id w.now) : (w.setWorkflow id row).WellFormed where
  workflows := by
    intro id' row' hrow'
    simp only [World.setWorkflow, Function.update_apply] at hrow'
    split at hrow'
    · next heq =>
        cases hrow'
        rw [heq]
        exact hrow
    · exact h.workflows id' row' hrow'
  fencingTokens := h.fencingTokens
  checkpoints := h.checkpoints
  cache := h.cache

/-- **What one call preserves**: it leaves a well-formed world well formed if it
carries what it must, and the times its caller has read are past. -/
theorem World.WellFormed.effect {log : CallLog} {call : StorageCall} {w : World}
    (h : w.WellFormed) (hcall : Carries log call)
    (hread : ∀ now : Int, Replied log .utcNow now → now ≤ w.now)
    (env : Env) : (call.effect env w).WellFormed := by
  cases call with
  | insertWorkflow id status createdAt name =>
      obtain ⟨rfl, hcreated⟩ := hcall
      refine h.setWorkflow ?_
      cases hrow : w.workflows id with
      | none => exact ⟨rfl, hread _ hcreated, .inl ⟨rfl, rfl, rfl⟩⟩
      | some row =>
          have hold := h.workflows id row hrow
          exact ⟨hold.key, hold.created, hold.state⟩
  | updateWorkflow expireAt status completedAt id =>
      obtain ⟨rfl, hcompleted, hrange⟩ := hcall
      simp only [StorageCall.effect, StorageCall.exec, Fault.apply]
      cases hrow : w.workflows id with
      | none => exact h
      | some row =>
          have hold := h.workflows id row hrow
          exact h.setWorkflow ⟨hold.key, hold.created,
            .inr ⟨expireAt, completedAt, rfl, rfl, rfl, hread _ hcompleted, hrange⟩⟩
  | insertFencingToken id fencingToken =>
      refine ⟨h.workflows, fun id' token htoken => ?_, h.checkpoints, h.cache⟩
      simp only [StorageCall.effect, StorageCall.exec, Fault.apply,
        World.setFencingToken_fencingTokens] at htoken
      split at htoken
      · cases hcall
        cases hold : w.fencingTokens id with
        | none =>
            simp only [hold, upsertFencingToken, Option.some.injEq] at htoken
            omega
        | some stored =>
            have hpos := h.fencingTokens id stored hold
            simp only [hold, upsertFencingToken, Option.some.injEq] at htoken
            omega
      · exact h.fencingTokens id' token htoken
  | insertCheckpoint id position key value createdAt =>
      refine ⟨h.workflows, h.fencingTokens, fun id' position' row hrow => ?_, h.cache⟩
      simp only [StorageCall.effect, StorageCall.exec, Fault.apply,
        World.setCheckpoint_checkpoints] at hrow
      split at hrow
      · cases hrow
        have hcreated :
          (upsertCheckpoint (w.checkpoints id position) key value createdAt).createdAt =
            createdAt := by
          cases w.checkpoints id position <;> rfl
        rw [hcreated]
        exact hread createdAt hcall
      · exact h.checkpoints id' position' row hrow
  | deleteFencingTokens currentTimestamp status =>
      refine ⟨h.workflows, fun id token htoken => ?_, h.checkpoints, h.cache⟩
      simp only [StorageCall.effect, StorageCall.exec, Fault.apply] at htoken
      split at htoken
      · contradiction
      · exact h.fencingTokens id token htoken
  | deleteCheckpoints currentTimestamp status =>
      refine ⟨h.workflows, h.fencingTokens, fun id position row hrow => ?_, h.cache⟩
      simp only [StorageCall.effect, StorageCall.exec, Fault.apply] at hrow
      split at hrow
      · contradiction
      · exact h.checkpoints id position row hrow
  | deleteWorkflows currentTimestamp status =>
      refine ⟨fun id row hrow => ?_, h.fencingTokens, h.checkpoints, h.cache⟩
      simp only [StorageCall.effect, StorageCall.exec, Fault.apply] at hrow
      split at hrow
      · contradiction
      · exact h.workflows id row hrow
  | cachePut key lease ttl =>
      obtain ⟨hkey, hcreated, httl⟩ := hcall
      refine ⟨h.workflows, h.fencingTokens, h.checkpoints, fun key' entry hentry => ?_⟩
      simp only [StorageCall.effect, StorageCall.exec, Fault.apply,
        World.setCache_cache] at hentry
      split at hentry
      · next heq =>
          cases hentry
          exact ⟨heq ▸ hkey, hread _ hcreated, le_rfl, httl⟩
      · exact h.cache key' entry hentry
  | cacheDelete key =>
      refine ⟨h.workflows, h.fencingTokens, h.checkpoints, fun key' entry hentry => ?_⟩
      simp only [StorageCall.effect, StorageCall.exec, Fault.apply,
        World.setCache_cache] at hentry
      split at hentry
      · contradiction
      · exact h.cache key' entry hentry
  | _ => exact h

/-! ## Runs -/

/-- The runs of the handlers, one storage call at a time, from a well-formed
store. -/
def Handlers.Stored (evictable : CachedLease → Int → Bool) (P : Handlers) : Prop :=
  Reachable (Pool.step (serverMachine evictable)) anyStep
    (fun P => ∃ w : World, w.WellFormed ∧ P = Pool.start w) P

section Runs

variable {P P' : Handlers}

theorem Handlers.Stored.reached (hr : P.Stored evictable) : P.Reached evictable :=
  hr.map id (fun _ ⟨w, _, h⟩ => ⟨w, h⟩) fun _ _ _ _ hok hs => .step (.start rfl) hok hs

/-- A time a handler has read is past. -/
theorem Handlers.Reached.read_le (hr : P.Reached evictable) {pid : Nat} {now : Int}
    (h : Replied (Pool.logOf pid P.trace) .utcNow now) : now ≤ P.shared.now := by
  revert pid now
  refine hr.invariant (fun P => ∀ {pid : Nat} {now : Int},
    Replied (Pool.logOf pid P.trace) .utcNow now → now ≤ P.shared.now) ?_ ?_
  · rintro _ ⟨w, rfl⟩ pid now h
    cases h
  · intro P l P' ih _ hs pid now h
    have hclock : P.shared.now ≤ P'.shared.now := by
      rcases shared_step hs with hd | ⟨_, _, env, _, call, _, -, -, -, hshared⟩
      · exact hd.now
      · rw [hshared, StorageCall.exec_now]
    rcases replied_step hs h with hold | ⟨env, hnew⟩
    · exact (ih hold).trans hclock
    · have hnow : P.shared.now = now := congrArg Prod.fst hnew
      exact hnow ▸ hclock

/-- What a call of a run carries. -/
theorem Handlers.Reached.carries (hr : P.Reached evictable) {pid : Nat}
    {p : Process StorageCall StorageCall.Reply String (Except HandlerError Response) Request}
    (hp : P.procs pid = some p) {call : StorageCall}
    {next : call.Reply →
      Program StorageCall StorageCall.Reply String (Except HandlerError Response)}
    (hrest : p.rest = .call call next) : Carries (Pool.logOf pid P.trace) call := by
  have hobeys := hr.sound.obeys hp (p.tag.keeps_carries [])
  rw [hrest] at hobeys
  exact hobeys.1

/-- A step keeps the world well formed. -/
theorem wellFormed_step (hr : P.Reached evictable) (h : P.shared.WellFormed)
    {l : Pool.Label Request Env Drift}
    (hs : Pool.step (serverMachine evictable) P l = some P') : P'.shared.WellFormed := by
  rcases shared_step hs with hd | ⟨pid, choice, env, p, call, next, -, hp, hrest, hshared⟩
  · exact h.drift hd
  · rw [hshared]
    exact StorageCall.exec_preserves env call P.shared World.WellFormed h fun _ =>
      h.effect (hr.carries hp hrest) (fun _ hread => hr.read_le hread) env

/-- Every world of a run is well formed: the one there now, and those its calls
found. -/
theorem Handlers.Stored.wellFormed (hr : P.Stored evictable) :
    P.shared.WellFormed ∧ ∀ e ∈ P.trace, e.before.WellFormed ∧ e.after.WellFormed := by
  refine hr.invariant_of_reachable
    (fun P => P.shared.WellFormed ∧ ∀ e ∈ P.trace, e.before.WellFormed ∧
      e.after.WellFormed) ?_ ?_
  · rintro _ ⟨w, hw, rfl⟩
    exact ⟨hw, fun e he => by simp [Pool.start] at he⟩
  · rintro P l P' hr ⟨hworld, htrace⟩ - hs
    have hworld' : P'.shared.WellFormed :=
      wellFormed_step (Handlers.Stored.reached hr) hworld hs
    refine ⟨hworld', ?_⟩
    rcases Pool.step_cases hs with ⟨pid, tag, -, -, rfl⟩ |
      ⟨pid, choice, env, p, call, next, -, -, -, rfl⟩ | ⟨pid, choice, env, p, rest, held,
        -, -, -, rfl⟩ |
      ⟨d, w, -, -, rfl⟩
    · exact htrace
    · intro e he
      rw [Pool.perform_trace] at he
      rcases List.mem_cons.mp he with rfl | he
      · exact ⟨hworld, hworld'⟩
      · exact htrace e he
    · exact htrace
    · exact htrace

end Runs

/-! ## Reading rows -/

/-- `From<Row<'_>> for Workflow`: `none` where it panics with "Invalid workflow
status". -/
def Workflow.fromRow (row : Workflow) : Option Workflow :=
  match row.status with
  | 0 => some { row with status := WorkflowStatus.Running.toInt }
  | 1 => some { row with status := WorkflowStatus.Completed.toInt }
  | _ => none

/-- The row of `Workflows` a statement hands to its caller. -/
def StorageCall.workflowRow : (call : StorageCall) → call.Reply → Option Workflow
  | .selectWorkflow _, .ok found => found
  | .insertWorkflow _ _ _ _, .ok row => some row
  | _, _ => none

/-- A well-formed row is converted to itself. -/
theorem Workflow.WellFormed.fromRow {row : Workflow} {id : String} {now : Int}
    (h : row.WellFormed id now) : Workflow.fromRow row = some row := by
  obtain ⟨rowId, status, expireAt, completedAt, name, createdAt⟩ := row
  rcases h.state with ⟨hstatus, -⟩ | ⟨_, _, hstatus, -⟩
  · cases hstatus
    rfl
  · cases hstatus
    rfl

/-- A row a statement hands on is the one stored. -/
theorem StorageCall.workflowRow_stored {env : Env} {call : StorageCall} {w : World}
    {row : Workflow} (h : call.workflowRow (call.exec env w).1 = some row) :
    ∃ id, w.workflows id = some row ∨ (call.exec env w).2.workflows id = some row := by
  obtain ⟨fault, minted, leader⟩ := env
  cases call with
  | selectWorkflow id =>
      cases fault with
      | none => exact ⟨id, .inl h⟩
      | refused => cases h
      | unacknowledged => cases h
  | insertWorkflow id status createdAt name =>
      cases fault with
      | none =>
          refine ⟨id, .inr ?_⟩
          simpa [StorageCall.exec, Fault.apply, World.setWorkflow,
            StorageCall.workflowRow] using h
      | refused => cases h
      | unacknowledged => cases h
  | _ => cases h

/-- **Everything stored is well formed at every moment**, and every row a
statement hands to its caller is converted without a panic and as it stands. -/
theorem store_wellFormed {P : Handlers} (hr : P.Stored evictable) : P.shared.WellFormed ∧
    ∀ e ∈ P.trace, ∀ row ∈ e.op.workflowRow e.reply, Workflow.fromRow row = some row := by
  obtain ⟨hworld, htrace⟩ := hr.wellFormed
  refine ⟨hworld, fun e he row hrow => ?_⟩
  obtain ⟨hbefore, hafter⟩ := htrace e he
  obtain ⟨env, henv⟩ := hr.reached.sound.executed e he
  have hexec : e.op.exec env e.before = (e.reply, e.after) := henv
  have hstored : e.op.workflowRow (e.op.exec env e.before).1 = some row := by
    rw [hexec]
    exact hrow
  obtain ⟨id, hold | hnew⟩ := StorageCall.workflowRow_stored hstored
  · exact (hbefore.workflows id row hold).fromRow
  · rw [hexec] at hnew
    exact (hafter.workflows id row hnew).fromRow

/-- A workflow is started, completed, and asked for before and after. -/
def askedTwice : List (Pool.Label Request Env Drift) :=
  arrives 0 payStart 5 ++ arrives 1 (.workflowStatus "pay") 1 ++
    arrives 2
      (.completeWorkflow { workflowId := "pay", fencingToken := 1, expireAfter := 60 }) 4 ++
    arrives 3 (.workflowStatus "pay") 1

/-- From an empty store, so it is when a workflow has been started, completed and
asked for. -/
theorem asked_twice_wellFormed : ∃ P : Handlers, runLabels askedTwice = some P ∧
    P.shared.WellFormed ∧
    ∀ e ∈ P.trace, ∀ row ∈ e.op.workflowRow e.reply, Workflow.fromRow row = some row := by
  obtain ⟨P, h⟩ : ∃ P, runLabels askedTwice = some P := Option.isSome_iff_exists.mp rfl
  have hr : P.Stored leaseExpired := .of_exec (.start ⟨.empty 0, .empty 0, rfl⟩) h
  exact ⟨P, h, store_wellFormed hr⟩

/-! ## The life of a workflow -/

/-- Where a workflow is in its life. -/
inductive LifePhase
  | absent
  | running (createdAt : Int)
  | completed (createdAt completedAt expireAt : Int)
deriving DecidableEq, Repr

/-- A workflow's life, against the clock. -/
structure Life where
  now : Int
  phase : LifePhase
deriving DecidableEq, Repr

inductive LifeLabel
  /-- Time passes. -/
  | tick (elapsed : Nat)
  /-- The workflow is created. -/
  | start (createdAt : Int)
  /-- The workflow is completed, or completed again. -/
  | finish (completedAt expireAt : Int)
  /-- The workflow is collected. -/
  | collect (currentTimestamp : Int)

/-- One step of a life: nothing is dated in the future, and only what is
completed and past its expiry is collected. -/
def Life.step : Step Life LifeLabel
  | s, .tick elapsed => some { s with now := s.now + elapsed }
  | s, .start createdAt =>
    match s.phase with
    | .absent => if createdAt ≤ s.now then some { s with phase := .running createdAt } else none
    | _ => none
  | s, .finish completedAt expireAt =>
    match s.phase with
    | .absent => none
    | .running createdAt | .completed createdAt _ _ =>
        if completedAt ≤ s.now then
          some { s with phase := .completed createdAt completedAt expireAt }
        else none
  | s, .collect currentTimestamp =>
    match s.phase with
    | .completed _ _ expireAt =>
        if expireAt < currentTimestamp ∧ currentTimestamp ≤ s.now then
          some { s with phase := .absent }
        else none
    | _ => none

/-- The phase a row is in; no row, no life. -/
def LifePhase.ofRow : Option Workflow → LifePhase
  | none => .absent
  | some row =>
    if row.status = WorkflowStatus.Completed.toInt then
      .completed row.createdAt (row.completedAt.getD 0) (row.expireAt.getD 0)
    else .running row.createdAt

/-- A workflow's life as the store has it. -/
def World.life (w : World) (id : String) : Life :=
  { now := w.now, phase := .ofRow (w.workflows id) }

/-- The step of a life a statement may make. -/
def StorageCall.lifeLabel : StorageCall → Option LifeLabel
  | .insertWorkflow _ _ createdAt _ => some (.start createdAt)
  | .updateWorkflow expireAt _ completedAt _ => some (.finish completedAt expireAt)
  | .deleteWorkflows currentTimestamp _ => some (.collect currentTimestamp)
  | _ => none

/-- The step of a workflow's life a recorded call has made, if any. -/
def StorageEvent.lifeLabel (id : String) (e : StorageEvent) : Option LifeLabel :=
  if e.after.life id = e.before.life id then none else e.op.lifeLabel

/-- Only the row and the clock matter. -/
theorem World.life_congr {w w' : World} {id : String} (hnow : w'.now = w.now)
    (hrow : w'.workflows id = w.workflows id) : w'.life id = w.life id := by
  simp only [World.life, hnow, hrow]

/-- **What one call does to a life**: nothing, or the one step of its kind. -/
theorem World.life_effect {log : CallLog} {call : StorageCall} {w : World}
    (hcall : Carries log call) (hread : ∀ now : Int, Replied log .utcNow now → now ≤ w.now)
    (env : Env) (id : String) : (call.effect env w).life id = w.life id ∨
      ∃ l, call.lifeLabel = some l ∧
        Life.step (w.life id) l = some ((call.effect env w).life id) := by
  cases call with
  | insertWorkflow workflowId status createdAt name =>
      obtain ⟨rfl, hcreated⟩ := hcall
      simp only [StorageCall.effect, StorageCall.exec, Fault.apply]
      by_cases hid : id = workflowId
      · subst hid
        cases hrow : w.workflows id with
        | none =>
            -- A new row: the workflow starts.
            refine .inr ⟨.start createdAt, rfl, ?_⟩
            simp [Life.step, World.life, hrow, hread createdAt hcreated, World.setWorkflow,
              upsertWorkflow, LifePhase.ofRow, WorkflowStatus.toInt]
        | some row =>
            -- A row that is there keeps all but its name.
            exact .inl
              (by simp [World.life, hrow, World.setWorkflow, upsertWorkflow, LifePhase.ofRow])
      · exact .inl (World.life_congr rfl (by simp [World.setWorkflow, hid]))
  | updateWorkflow expireAt status completedAt workflowId =>
      obtain ⟨rfl, hcompleted, -⟩ := hcall
      simp only [StorageCall.effect, StorageCall.exec, Fault.apply]
      by_cases hid : id = workflowId
      · subst hid
        cases hrow : w.workflows id with
        | none => exact .inl rfl
        | some row =>
            refine .inr ⟨.finish completedAt expireAt, rfl, ?_⟩
            by_cases hstatus : row.status = WorkflowStatus.Completed.toInt <;>
              simp [Life.step, World.life, hrow, hread completedAt hcompleted,
                World.setWorkflow, LifePhase.ofRow, hstatus]
      · cases w.workflows workflowId with
        | none => exact .inl rfl
        | some row => exact .inl (World.life_congr rfl (by simp [World.setWorkflow, hid]))
  | deleteWorkflows currentTimestamp status =>
      obtain ⟨rfl, hnow⟩ := hcall
      simp only [StorageCall.effect, StorageCall.exec, Fault.apply]
      cases hexpired : w.expired currentTimestamp WorkflowStatus.Completed.toInt id with
      | false => exact .inl (World.life_congr rfl (by simp [hexpired]))
      | true =>
          obtain ⟨row, expireAt, hrow, hexpire, hlt, hstatus⟩ := World.expired_iff.mp hexpired
          refine .inr ⟨.collect currentTimestamp, rfl, ?_⟩
          simp [Life.step, World.life, hrow, hexpired, LifePhase.ofRow, hstatus, hexpire, hlt,
            hread currentTimestamp hnow]
  | _ => exact .inl rfl

section Lives

variable {P P' : Handlers}

/-- So it was when its caller went on to call. -/
theorem Handlers.Reached.read_le_at (hr : P.Reached evictable)
    {later earlier : List StorageEvent} {e : StorageEvent}
    (he : P.trace = later ++ e :: earlier) {now : Int}
    (h : Replied (Pool.logOf e.pid earlier) .utcNow now) : now ≤ e.before.now := by
  have hsub : earlier ⊆ P.trace := fun g hg => by rw [he]; simp [hg]
  obtain ⟨between, g, earliest, env, rfl, -, hop, hexec⟩ := hr.sound.exists_of_mem_logOf hsub h
  have hnow : g.before.now = now := congrArg Prod.fst hexec
  exact hnow ▸ hr.now_le he

/-- A call of a run makes no step of a life, or the one of its kind. -/
theorem Handlers.Reached.life_event (hr : P.Reached evictable)
    {later earlier : List StorageEvent} {e : StorageEvent}
    (he : P.trace = later ++ e :: earlier) (id : String) :
    e.after.life id = e.before.life id ∨
      ∃ l, e.op.lifeLabel = some l ∧
        Life.step (e.before.life id) l = some (e.after.life id) := by
  have hmem : e ∈ P.trace := by rw [he]; simp
  have hcarries : Carries (Pool.logOf e.pid earlier) e.op :=
    hr.sound.obeyed he (e.tag.keeps_carries [])
  obtain ⟨env, hafter⟩ := hr.after_eq hmem
  rw [hafter]
  exact StorageCall.exec_preserves env e.op e.before (fun w => w.life id = e.before.life id ∨
    ∃ l, e.op.lifeLabel = some l ∧ Life.step (e.before.life id) l = some (w.life id)) (.inl rfl)
    fun _ => World.life_effect hcarries (fun _ hread => hr.read_le_at he hread) env id

/-- Time passes between the steps of a life. -/
def LifeLabel.isTick : LifeLabel → Bool
  | .tick _ => true
  | _ => false

/-- The steps of a workflow's life a run has made, oldest first. -/
def Handlers.lived (id : String) (P : Handlers) : List LifeLabel :=
  (P.trace.filterMap (StorageEvent.lifeLabel id)).reverse

/-- No call makes time pass. -/
theorem StorageCall.lifeLabel_isTick {call : StorageCall} {l : LifeLabel}
    (h : call.lifeLabel = some l) : l.isTick = false := by
  cases call <;> simp only [lifeLabel, Option.some.injEq, reduceCtorEq] at h <;> subst h <;> rfl

/-- What one step of the server adds to a life. -/
theorem life_step (hr : P.Reached evictable) {l : Pool.Label Request Env Drift}
    (hs : Pool.step (serverMachine evictable) P l = some P') (id : String) :
    ∃ ls, exec Life.step (P.shared.life id) ls = some (P'.shared.life id) ∧
      P'.lived id = P.lived id ++ ls.filter (!·.isTick) := by
  have hsilent : ∀ Q : Handlers, Q.shared = P.shared → Q.trace = P.trace →
      ∃ ls, exec Life.step (P.shared.life id) ls = some (Q.shared.life id) ∧
        Q.lived id = P.lived id ++ ls.filter (!·.isTick) := by
    intro Q hshared htrace
    exact ⟨[], by rw [hshared]; rfl, by simp [Handlers.lived, htrace]⟩
  have hr' : P'.Reached evictable := hr.step trivial hs
  rcases Pool.step_cases hs with ⟨pid, tag, -, -, rfl⟩ |
    ⟨pid, choice, env, p, call, next, -, -, -, hP'⟩ |
    ⟨pid, choice, env, p, rest, held, -, -, -, rfl⟩ | ⟨d, w, -, hd, rfl⟩
  · exact hsilent _ rfl rfl
  · -- A call: its own step of the life, or none.
    obtain ⟨e, htrace, hbefore, hafter⟩ : ∃ e : StorageEvent, P'.trace = e :: P.trace ∧
        e.before = P.shared ∧ e.after = P'.shared :=
          ⟨_, by rw [hP']; rfl, rfl, by rw [hP']; rfl⟩
    have hlived : P'.lived id = P.lived id ++ (StorageEvent.lifeLabel id e).toList := by
      rw [Handlers.lived, htrace, List.filterMap_cons]
      cases StorageEvent.lifeLabel id e <;> simp [Handlers.lived]
    rw [hlived, StorageEvent.lifeLabel, ← hbefore, ← hafter]
    split
    · next hsame => exact ⟨[], by rw [hsame]; rfl, by simp⟩
    · next hchanged =>
        have hsplit : P'.trace = [] ++ e :: P.trace := htrace
        rcases hr'.life_event hsplit id with hsame | ⟨l, hlabel, hstep⟩
        · exact absurd hsame hchanged
        · refine ⟨[l], by simp [exec, hstep], ?_⟩
          simp [hlabel, StorageCall.lifeLabel_isTick hlabel]
  · exact hsilent _ rfl rfl
  · -- Drift: time passes.
    have hdrift : P.shared.Drifts evictable w := .of_apply hd
    refine ⟨[.tick (w.now - P.shared.now).toNat], ?_,
      by simp [Handlers.lived, LifeLabel.isTick]⟩
    have hle := hdrift.now
    simp only [exec, Life.step, World.life, hdrift.workflows, Option.bind_some,
      Option.some.injEq, Life.mk.injEq, and_true]
    omega

/-- **The server refines the life of every workflow**: whatever the requests,
their interleaving, the faults and the drift, what the recorded calls have done
to its row, in order, is an execution of the life it had at the start. -/
theorem lifecycle_refines {w : World}
    (h : Reachable (Pool.step (serverMachine evictable)) anyStep (· = Pool.start w) P)
    (id : String) :
    ∃ ls, exec Life.step (w.life id) ls = some (P.shared.life id) ∧
      P.lived id = ls.filter (!·.isTick) := by
  refine h.invariant_of_reachable (fun P : Handlers => ∃ ls, exec Life.step (w.life id) ls =
    some (P.shared.life id) ∧ P.lived id = ls.filter (!·.isTick)) ?_ ?_
  · rintro _ rfl
    exact ⟨[], rfl, rfl⟩
  · rintro P l P' hr ⟨ls, hls, hlived⟩ - hs
    have hreached : P.Reached evictable := hr.map (fun P => P) (fun _ h => ⟨w, h⟩)
      fun _ _ _ _ hok hs => .step (.start rfl) hok hs
    obtain ⟨ls', hls', hlived'⟩ := life_step hreached hs id
    refine ⟨ls ++ ls', ?_, ?_⟩
    · rw [exec_append, hls]
      exact hls'
    · rw [hlived', hlived, List.filter_append]

/-- The life of a workflow that is started, completed and asked for. -/
theorem asked_twice_lived : ∃ P : Handlers, runLabels askedTwice = some P ∧
    P.lived "pay" = [.start 0, .finish 0 60] ∧
    ∃ ls, exec Life.step ((World.empty 0).life "pay") ls = some (P.shared.life "pay") ∧
      P.lived "pay" = ls.filter (!·.isTick) := by
  obtain ⟨P, h⟩ : ∃ P, runLabels askedTwice = some P := Option.isSome_iff_exists.mp rfl
  exact ⟨P, h, eq_of_runLabels h (Handlers.lived "pay") rfl,
    lifecycle_refines (.of_exec (.start rfl) h) "pay"⟩

/-! ## What status requests see -/

/-- A later phase of the same workflow, as long as it is not collected. -/
def LifePhase.Continues : LifePhase → LifePhase → Prop
  | .absent, _ => True
  | .running createdAt, .running createdAt' => createdAt' = createdAt
  | .running createdAt, .completed createdAt' _ _ => createdAt' = createdAt
  | .completed createdAt _ _, .completed createdAt' _ _ => createdAt' = createdAt
  | _, _ => False

theorem LifePhase.Continues.refl (p : LifePhase) : p.Continues p := by
  cases p <;> simp [Continues]

theorem LifePhase.Continues.trans {p q r : LifePhase} (h : p.Continues q) (h' : q.Continues r) :
    p.Continues r := by
  cases p <;> cases q <;> cases r <;> simp_all [Continues]

/-- A step of a life other than being collected continues it. -/
theorem Life.continues_step {s s' : Life} {l : LifeLabel} (h : Life.step s l = some s')
    (hl : ∀ currentTimestamp, l ≠ .collect currentTimestamp) : s.phase.Continues s'.phase := by
  obtain ⟨now, phase⟩ := s
  cases l with
  | tick elapsed =>
      cases h
      exact .refl _
  | start createdAt =>
      cases phase with
      | absent => trivial
      | running c => cases h
      | completed c d x => cases h
  | finish completedAt expireAt =>
      cases phase with
      | absent => cases h
      | running c =>
          simp only [Life.step, Option.ite_none_right_eq_some, Option.some.injEq] at h
          obtain ⟨-, rfl⟩ := h
          exact rfl
      | completed c d x =>
          simp only [Life.step, Option.ite_none_right_eq_some, Option.some.injEq] at h
          obtain ⟨-, rfl⟩ := h
          exact rfl
  | collect currentTimestamp => exact absurd rfl (hl currentTimestamp)

/-- A cleanup's delete that found the workflow expired. -/
def StorageEvent.Collects (id : String) (e : StorageEvent) : Prop :=
  e.tag = .cleanUp ∧ ∃ currentTimestamp, currentTimestamp ≤ e.before.now ∧
    e.op = .deleteWorkflows currentTimestamp WorkflowStatus.Completed.toInt ∧
    e.before.expired currentTimestamp WorkflowStatus.Completed.toInt id = true

/-- What a status request has read. -/
def StorageEvent.Reads (id : String) (e : StorageEvent) (found : Option Workflow) : Prop :=
  (⟨e.op, e.reply⟩ : (op : StorageCall) × op.Reply) = ⟨.selectWorkflow id, Except.ok found⟩

/-- A delete that has changed a life is a cleanup's, and found it expired. -/
theorem collects_of_change (hr : P.Reached evictable) {later earlier : List StorageEvent}
    {e : StorageEvent} (he : P.trace = later ++ e :: earlier) {id : String}
    {currentTimestamp : Int} (hlabel : e.op.lifeLabel = some (.collect currentTimestamp))
    (hchange : e.after.life id ≠ e.before.life id) : StorageEvent.Collects id e := by
  obtain ⟨status, hop⟩ : ∃ status, e.op = .deleteWorkflows currentTimestamp status := by
    cases hcall : e.op <;>
      simp only [hcall, StorageCall.lifeLabel, Option.some.injEq, LifeLabel.collect.injEq,
        reduceCtorEq] at hlabel
    exact ⟨_, by rw [hlabel]⟩
  have hcalls := hr.calls he
  have hcarries : Carries (Pool.logOf e.pid earlier) e.op :=
    hr.sound.obeyed he (e.tag.keeps_carries [])
  rw [hop] at hcalls hcarries
  obtain ⟨rfl, hread⟩ := hcarries
  refine ⟨hcalls, currentTimestamp, hr.read_le_at he hread, hop, ?_⟩
  refine Classical.byContradiction fun hlive => hchange ?_
  obtain ⟨env, hafter⟩ := hr.after_eq (e := e) (by rw [he]; simp)
  rw [hafter, hop]
  refine StorageCall.exec_preserves env _ e.before (fun w => w.life id = e.before.life id) rfl
    fun _ => World.life_congr rfl ?_
  simp [StorageCall.effect, StorageCall.exec, Fault.apply, Bool.not_eq_true _ ▸ hlive]

/-- **A workflow's status only goes forward, unless cleanup has collected it**:
of two reads, the later one finds the row the earlier one found, completed if
it was, or between the two a cleanup's delete found it expired. -/
theorem status_goes_forward (hr : P.Reached evictable)
    {later between earlier : List StorageEvent} {e₁ e₂ : StorageEvent}
    (he : P.trace = later ++ e₂ :: (between ++ e₁ :: earlier)) {id : String}
    {found₁ found₂ : Option Workflow} (h₁ : StorageEvent.Reads id e₁ found₁)
    (h₂ : StorageEvent.Reads id e₂ found₂) :
    (LifePhase.ofRow found₁).Continues (.ofRow found₂) ∨
      ∃ e ∈ between, StorageEvent.Collects id e := by
  have hread : ∀ e ∈ P.trace, ∀ found, StorageEvent.Reads id e found →
      e.before.workflows id = found ∧ e.after = e.before := by
    intro e hmem found hreads
    obtain ⟨env, hexec⟩ := hr.sound.executed e hmem
    have hcall : e.op.exec env e.before = (e.reply, e.after) := hexec
    have hreply : (⟨e.op, (e.op.exec env e.before).1⟩ : (op : StorageCall) × op.Reply) =
        ⟨.selectWorkflow id, Except.ok found⟩ := by
      rw [hcall]
      exact hreads
    have hselect := StorageCall.exec_of_eq hreply
    rw [hcall] at hselect
    exact ⟨(Fault.apply_eq_ok hselect).1.symm, (Fault.apply_eq_ok hselect).2⟩
  obtain ⟨hfound₁, hsame⟩ := hread e₁ (by rw [he]; simp) found₁ h₁
  obtain ⟨hfound₂, -⟩ := hread e₂ (by rw [he]; simp) found₂ h₂
  by_cases hforward : (LifePhase.ofRow found₁).Continues (.ofRow found₂)
  · exact .inl hforward
  · right
    have hspan := hr.sound.span_between he
    obtain ⟨e, hmem, hbefore, hafter⟩ := hspan.exists_change
      (I := fun w => (LifePhase.ofRow found₁).Continues (w.life id).phase)
      (fun w w' hd h => by rw [World.life, hd.workflows]; exact h)
      (by rw [hsame, World.life, hfound₁]; exact .refl _)
      (by rw [World.life, hfound₂]; exact hforward)
    obtain ⟨newer, older, hbetween⟩ := List.append_of_mem hmem
    have hsplit : P.trace = (later ++ e₂ :: newer) ++ e :: (older ++ e₁ :: earlier) := by
      rw [he, hbetween]
      simp
    refine ⟨e, hmem, ?_⟩
    rcases hr.life_event hsplit id with hlife | ⟨l, hlabel, hstep⟩
    · exact absurd (by rw [hlife]; exact hbefore) hafter
    · by_cases hcollect : ∃ currentTimestamp, l = .collect currentTimestamp
      · obtain ⟨currentTimestamp, rfl⟩ := hcollect
        refine collects_of_change hr hsplit hlabel (fun hlife => hafter ?_)
        rw [hlife]
        exact hbefore
      · have hstays := Life.continues_step hstep fun t heq => hcollect ⟨t, heq⟩
        exact absurd (hbefore.trans hstays) hafter

end Lives

/-- The second request finds the workflow completed, and as old as the first
found it. -/
theorem asked_twice_goes_forward :
    ∃ P : Handlers, ∃ later between earlier e₁ e₂, ∃ row₁ row₂ : Workflow,
      runLabels askedTwice = some P ∧ P.trace = later ++ e₂ :: (between ++ e₁ :: earlier) ∧
      StorageEvent.Reads "pay" e₁ (some row₁) ∧ StorageEvent.Reads "pay" e₂ (some row₂) ∧
      ((LifePhase.ofRow (some row₁)).Continues (.ofRow (some row₂)) ∨
        ∃ e ∈ between, StorageEvent.Collects "pay" e) := by
  obtain ⟨P, h⟩ : ∃ P, runLabels askedTwice = some P := Option.isSome_iff_exists.mp rfl
  obtain ⟨later, between, earlier, e₁, e₂, he, row₁, row₂, h₁, h₂⟩ :
      ∃ later between earlier e₁ e₂, P.trace = later ++ e₂ :: (between ++ e₁ :: earlier) ∧
        ∃ row₁ row₂ : Workflow, StorageEvent.Reads "pay" e₁ (some row₁) ∧
          StorageEvent.Reads "pay" e₂ (some row₂) := by
    cases h
    exact ⟨[], [_, _, _, _], _, _, _, rfl, _, _, rfl, rfl⟩
  exact ⟨P, later, between, earlier, e₁, e₂, row₁, row₂, h, he, h₁, h₂,
    status_goes_forward (reached_of_runLabels h) he h₁ h₂⟩

end IdempotentTransformer
