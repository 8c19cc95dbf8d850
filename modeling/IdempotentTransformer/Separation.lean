import IdempotentTransformer.Library.Confinement
import IdempotentTransformer.Interleaving

/-!
# IdempotentTransformer.Separation

Requests for one workflow take no notice of those for the others, and a
request for one position leaves the other positions alone.

* `Request.confined` — what each handler may call and lock, from its text;
* `World.Alike` — two worlds are the same to one workflow;
* `workflowView` — the unwinding conditions of a workflow's view;
* `non_interference` — the theorem over whole runs.
-/

namespace IdempotentTransformer

open Library

/-! ## Whose key it is -/

/-- The workflow a cache key is for: everything before the last colon. -/
def keyOwner (key : String) : String :=
  String.ofList (key.toList.reverse.dropWhile (· != ':')).tail.reverse

/-- `"{workflow_id}:{position}"` is a key of its workflow, whatever its id
contains. -/
@[simp] theorem keyOwner_generateLeasedCheckpointKey (workflowId : String) (position : Int) :
    keyOwner (generateLeasedCheckpointKey workflowId position) = workflowId := by
  have hkey : (generateLeasedCheckpointKey workflowId position).toList =
      workflowId.toList ++ ':' :: position.repr.toList := by
    simp [generateLeasedCheckpointKey, toString]
  have hdigits : ∀ c ∈ position.repr.toList.reverse, (c != ':') = true := by
    intro c hc
    rw [List.mem_reverse] at hc
    have hne : c ≠ ':' := fun heq => notMem_repr position (heq ▸ hc)
    exact bne_iff_ne.mpr hne
  have hreverse : (workflowId.toList ++ ':' :: position.repr.toList).reverse =
      position.repr.toList.reverse ++ ':' :: workflowId.toList.reverse := by simp
  rw [keyOwner, hkey, hreverse, List.dropWhile_append_of_pos hdigits]
  simp

/-! ## What a handler may touch -/

/-- The workflow a request is for. -/
def Request.workflowId? : Request → Option String
  | .workflowStart data => some data.workflowId
  | .checkpoint data => some data.workflowId
  | .leaseCheckpoint data => some data.workflowId
  | .completeWorkflow data => some data.workflowId
  | .workflowStatus workflowId => some workflowId
  | .releaseCheckpoint data => some data.workflowId
  | .generateIdempotencyKey data => some data.workflowId
  | .cleanUp => none

/-- The position of a workflow a request is for. -/
def Request.place? : Request → Option (String × Int)
  | .checkpoint data => some (data.workflowId, data.position)
  | .leaseCheckpoint data => some (data.workflowId, data.position)
  | .releaseCheckpoint data => some (data.workflowId, data.position)
  | .generateIdempotencyKey data => some (data.workflowId, data.position)
  | _ => none

/-- The requests that insert rows. -/
def Request.writesRow : Request → Bool
  | .checkpoint _ | .generateIdempotencyKey _ => true
  | _ => false

/-- The lease of a request's position is kept, and locked, under this key. -/
def Request.LeaseKey (request : Request) (key : String) : Prop :=
  ∃ workflowId position, request.place? = some (workflowId, position) ∧
    key = generateLeasedCheckpointKey workflowId position

/-- The calls a handler may make: for its own workflow, its own position and
its own lease; to delete, for cleanup alone. -/
def Request.May (request : Request) : StorageCall → Prop
  | .selectCheckpoint workflowId position => request.place? = some (workflowId, position)
  | .insertCheckpoint workflowId position _ _ _ =>
      request.place? = some (workflowId, position) ∧ request.writesRow = true
  | .selectFencingToken workflowId => request.workflowId? = some workflowId
  | .insertFencingToken workflowId _ => request.workflowId? = some workflowId
  | .insertWorkflow id _ _ _ => request.workflowId? = some id
  | .selectWorkflow id => request.workflowId? = some id
  | .updateWorkflow _ _ _ id => request.workflowId? = some id
  | .deleteFencingTokens _ _ | .deleteCheckpoints _ _ | .deleteWorkflows _ _ =>
      request = .cleanUp
  | .cacheGet key => request.LeaseKey key
  | .cachePut key _ _ => request.LeaseKey key
  | .cacheDelete key => request.LeaseKey key
  | .isLeaderDb | .utcNow | .newV4 => True

namespace Handler

variable {α β : Type} {C : StorageCall → Prop} {K : String → Prop}

/-- All calls of a handler meet `C` and all its locks meet `K`. -/
def Confined (C : StorageCall → Prop) (K : String → Prop) (m : Handler α) : Prop :=
  m.program.Confined C K

theorem confined_bind {m : Handler α} {f : α → Handler β} (hm : m.Confined C K)
    (hf : ∀ a, (f a).Confined C K) : (m >>= f).Confined C K := by
  refine Program.confined_bind hm fun r => ?_
  cases r with
  | ok a => exact hf a
  | error e => trivial

theorem confined_join {a : Handler α} {b : Handler β} (ha : a.Confined C K)
    (hb : b.Confined C K) : (Handler.join a b).Confined C K :=
  Program.confined_bind (Program.confined_join ha hb) fun _ => trivial

theorem confined_pure (a : α) : (pure a : Handler α).Confined C K := trivial

theorem confined_fail (e : HandlerError) : (fail e : Handler α).Confined C K := trivial

theorem confined_ofResult (r : Except HandlerError α) : (ofResult r).Confined C K := trivial

theorem confined_await
    {p : Program StorageCall StorageCall.Reply String (Except HiqliteError α)}
    (hp : p.Confined C K) : (Handler.await p).Confined C K :=
  Program.confined_bind hp fun _ => trivial

theorem confined_read {p : Program StorageCall StorageCall.Reply String α}
    (hp : p.Confined C K) : (Handler.read p).Confined C K :=
  Program.confined_bind hp fun _ => trivial

theorem confined_lock {key : String} (h : K key) : (lock key).Confined C K :=
  ⟨h, fun _ => trivial⟩

theorem confined_dropGuard {key : String}
    (h : K key) : (dropGuard key).Confined C K := ⟨h, trivial⟩

end Handler

section Confined

open Handler

variable {C : StorageCall → Prop} {K : String → Prop}

theorem confined_send {call : StorageCall} (h : C call) : call.send.Confined C K :=
  ⟨h, fun _ => trivial⟩

theorem confined_returnErrorIfTrue (condition : Bool) (status : HandlerError) :
    (returnErrorIfTrue condition status).Confined C K := by
  cases condition with
  | true => exact confined_fail status
  | false => exact confined_pure ()

theorem confined_utcNow (h : C .utcNow) : utcNow.Confined C K := confined_read (confined_send h)

theorem confined_diffLeaseExpiryFromNow (h : C .utcNow) (leased : LeasedCheckpointValue) :
    (diffLeaseExpiryFromNow leased).Confined C K :=
  confined_bind (confined_utcNow h) fun _ => confined_pure _

theorem confined_createCheckpoint {workflowId : String} {value : Option Bytes} {position : Int}
    {idempotencyKey : String} (hnow : C .utcNow)
    (h : ∀ createdAt, C
      (.insertCheckpoint workflowId position idempotencyKey value createdAt)) :
    (createCheckpoint workflowId value position idempotencyKey).Confined C K :=
  confined_bind (confined_utcNow hnow) fun _ => confined_await (confined_send (h _))

theorem confined_removeLeasedCheckpoint {workflowId : String} {position : Int}
    (hget : C (.cacheGet (generateLeasedCheckpointKey workflowId position)))
    (hdelete : C (.cacheDelete (generateLeasedCheckpointKey workflowId position))) :
    (removeLeasedCheckpoint workflowId position).Confined C K :=
  confined_bind (confined_await (confined_send hget)) fun _ =>
    confined_bind (confined_await (confined_send hdelete)) fun _ => confined_pure _

theorem confined_leaseCheckpoint {workflowId : String} {position leaseTimeout : Int}
    (hnow : C .utcNow)
    (hput : ∀ lease ttl, C
      (.cachePut (generateLeasedCheckpointKey workflowId position) lease ttl)) :
    (leaseCheckpoint workflowId position leaseTimeout).Confined C K :=
  confined_bind (confined_utcNow hnow) fun _ =>
    confined_bind (confined_await (confined_send (hput _ _))) fun _ => confined_pure _

end Confined

section Handlers

open Handler

/-- A handler wrapped into its response. -/
private theorem confined_wrap {α : Type} {C : StorageCall → Prop} {K : String → Prop}
    {m : Handler α} (f : α → Response) (h : m.Confined C K) :
    (m >>= fun a => pure (f a)).Confined C K :=
  confined_bind h fun a => confined_pure (f a)

theorem createWorkflow_confined (data : CreateWorkflowInput) :
    (Request.workflowStart data).handler.Confined (Request.workflowStart data).May
      (Request.workflowStart data).LeaseKey := by
  have hworkflow : (createOrGetWorkflow data.workflowId .Running data.name).Confined
      (Request.workflowStart data).May (Request.workflowStart data).LeaseKey :=
    confined_bind (confined_utcNow trivial) fun _ => confined_await (confined_send rfl)
  have htoken : (incrementWorkflowFencingToken data.workflowId 1).Confined
      (Request.workflowStart data).May (Request.workflowStart data).LeaseKey :=
    confined_await (confined_send rfl)
  refine confined_wrap _ (confined_bind (confined_join hworkflow htoken) fun results => ?_)
  exact confined_bind (confined_ofResult _) fun _ => confined_pure _

theorem storeResult_confined (data : CheckpointInput) (abort : Bool) :
    (storeResult data abort).Confined (Request.checkpoint data).May
      (Request.checkpoint data).LeaseKey :=
  confined_bind (confined_createCheckpoint trivial fun _ => ⟨rfl, rfl⟩) fun _ => confined_pure _

theorem handleCheckpoint_confined (data : CheckpointInput) :
    (Request.checkpoint data).handler.Confined (Request.checkpoint data).May
      (Request.checkpoint data).LeaseKey := by
  have hkey : (Request.checkpoint data).LeaseKey
      (generateLeasedCheckpointKey data.workflowId data.position) := ⟨_, _, rfl, rfl⟩
  refine confined_wrap _ (confined_bind (confined_join (confined_await (confined_send rfl))
    (confined_removeLeasedCheckpoint hkey hkey)) fun results => ?_)
  refine confined_bind (confined_ofResult _) fun stored =>
    confined_bind (confined_ofResult _) fun leased =>
      confined_bind (confined_returnErrorIfTrue _ _) fun _ => ?_
  cases leased with
  | none => exact storeResult_confined data _
  | some leased =>
      refine confined_bind (confined_diffLeaseExpiryFromNow trivial leased) fun remaining => ?_
      dsimp only
      split
      · exact confined_bind (confined_returnErrorIfTrue _ _) fun _ =>
          storeResult_confined data _
      · exact storeResult_confined data _

theorem grantLease_confined (data : LeaseCheckpointInput) (token : Option Int) :
    (grantLease data token).Confined (Request.leaseCheckpoint data).May
      (Request.leaseCheckpoint data).LeaseKey := by
  rw [grantLease]
  refine confined_bind (confined_returnErrorIfTrue _ _) fun _ =>
    confined_bind (confined_returnErrorIfTrue _ _) fun _ => ?_
  split
  · exact confined_bind (confined_leaseCheckpoint trivial fun _ _ => ⟨_, _, rfl, rfl⟩) fun _ =>
      confined_pure _
  · exact confined_fail _

theorem handleLeaseCheckpoint_confined (data : LeaseCheckpointInput) :
    (Request.leaseCheckpoint data).handler.Confined (Request.leaseCheckpoint data).May
      (Request.leaseCheckpoint data).LeaseKey := by
  have hkey : (Request.leaseCheckpoint data).LeaseKey
      (generateLeasedCheckpointKey data.workflowId data.position) := ⟨_, _, rfl, rfl⟩
  refine confined_wrap _ ?_
  rw [handleLeaseCheckpoint_eq]
  refine confined_bind (confined_await (confined_send rfl)) fun result => ?_
  cases result with
  | some row =>
      exact confined_bind (confined_returnErrorIfTrue _ _) fun _ =>
        confined_bind (confined_returnErrorIfTrue _ _) fun _ => confined_pure _
  | none =>
      refine confined_bind (confined_lock hkey) fun _ =>
        confined_bind (confined_dropGuard hkey) fun _ =>
          confined_bind (confined_join (confined_await (confined_send hkey))
            (confined_await (confined_send rfl))) fun results =>
              confined_bind (confined_ofResult _) fun leased =>
                confined_bind (confined_ofResult _) fun stored => ?_
      cases leased with
      | none => exact grantLease_confined data stored
      | some leased =>
          refine confined_bind (confined_diffLeaseExpiryFromNow trivial leased)
            fun remaining => ?_
          dsimp only
          split
          · exact confined_pure _
          · exact grantLease_confined data stored

theorem finishWorkflow_confined (data : FinishWorkflowInput) :
    (Request.completeWorkflow data).handler.Confined (Request.completeWorkflow data).May
      (Request.completeWorkflow data).LeaseKey := by
  refine confined_bind (confined_bind (confined_await (confined_send rfl)) fun token => ?_)
    fun _ => confined_pure _
  refine confined_bind (confined_returnErrorIfTrue _ _) fun _ =>
    confined_bind (confined_returnErrorIfTrue _ _) fun _ =>
      confined_bind (confined_utcNow trivial) fun _ =>
        confined_bind (confined_utcNow trivial) fun _ => ?_
  exact confined_await (confined_send rfl)

theorem releaseCheckpoint_confined (data : ReleaseCheckpointInput) :
    (Request.releaseCheckpoint data).handler.Confined (Request.releaseCheckpoint data).May
      (Request.releaseCheckpoint data).LeaseKey := by
  have hkey : (Request.releaseCheckpoint data).LeaseKey
      (generateLeasedCheckpointKey data.workflowId data.position) := ⟨_, _, rfl, rfl⟩
  exact confined_bind (confined_bind (confined_removeLeasedCheckpoint hkey hkey)
    fun _ => confined_pure _) fun _ => confined_pure _

theorem createDurableIdempotencyKey_confined (data : CreateDurableIdempotencyKeyInput) :
    (Request.generateIdempotencyKey data).handler.Confined
      (Request.generateIdempotencyKey data).May
      (Request.generateIdempotencyKey data).LeaseKey := by
  have hkey : (Request.generateIdempotencyKey data).LeaseKey
      (generateLeasedCheckpointKey data.workflowId data.position) := ⟨_, _, rfl, rfl⟩
  refine confined_wrap _ (confined_bind (confined_lock hkey) fun _ =>
    confined_bind (confined_dropGuard hkey) fun _ =>
      confined_bind (confined_await (confined_send rfl)) fun result => ?_)
  cases result with
  | some row => exact confined_pure _
  | none =>
      refine confined_bind (confined_await (confined_send rfl)) fun token =>
        confined_bind (confined_returnErrorIfTrue _ _) fun _ =>
          confined_bind (confined_returnErrorIfTrue _ _) fun _ =>
            confined_bind (confined_read (confined_send trivial)) fun minted => ?_
      exact confined_bind (confined_createCheckpoint trivial fun _ => ⟨rfl, rfl⟩) fun _ =>
        confined_pure _

theorem handleWorkflowCleanup_confined :
    Request.cleanUp.handler.Confined Request.cleanUp.May Request.cleanUp.LeaseKey := by
  refine confined_bind (confined_bind (confined_read (confined_send trivial)) fun leader => ?_)
    fun _ => confined_pure _
  cases leader with
  | false => exact confined_pure _
  | true =>
      refine confined_bind (confined_utcNow trivial) fun now =>
        confined_bind (confined_join (confined_await (confined_send rfl))
          (confined_await (confined_send rfl))) fun results =>
            confined_bind (confined_ofResult _) fun _ =>
              confined_bind (confined_ofResult _) fun _ => ?_
      exact confined_await (confined_send rfl)

/-- **Every handler keeps to its own workflow, position and lease.** -/
theorem Request.confined (request : Request) :
    request.handler.Confined request.May request.LeaseKey := by
  cases request with
  | workflowStart data => exact createWorkflow_confined data
  | checkpoint data => exact handleCheckpoint_confined data
  | leaseCheckpoint data => exact handleLeaseCheckpoint_confined data
  | completeWorkflow data => exact finishWorkflow_confined data
  | workflowStatus workflowId => exact confined_wrap _ (confined_await (confined_send rfl))
  | releaseCheckpoint data => exact releaseCheckpoint_confined data
  | generateIdempotencyKey data => exact createDurableIdempotencyKey_confined data
  | cleanUp => exact handleWorkflowCleanup_confined

end Handlers

/-! ## Worlds alike to a workflow -/

/-- The workflow a call is for; cleanup's statements are for all of them, and
reading the clock is for none. -/
def StorageCall.owner? : StorageCall → Option String
  | .selectCheckpoint workflowId _ => some workflowId
  | .insertCheckpoint workflowId _ _ _ _ => some workflowId
  | .selectFencingToken workflowId => some workflowId
  | .insertFencingToken workflowId _ => some workflowId
  | .insertWorkflow id _ _ _ => some id
  | .selectWorkflow id => some id
  | .updateWorkflow _ _ _ id => some id
  | .cacheGet key => some (keyOwner key)
  | .cachePut key _ _ => some (keyOwner key)
  | .cacheDelete key => some (keyOwner key)
  | .deleteFencingTokens _ _ | .deleteCheckpoints _ _ | .deleteWorkflows _ _ => none
  | .isLeaderDb | .utcNow | .newV4 => none

/-- The statements of cleanup. -/
def StorageCall.sweeps : StorageCall → Bool
  | .deleteFencingTokens _ _ | .deleteCheckpoints _ _ | .deleteWorkflows _ _ => true
  | _ => false

/-- A handler's calls are for its own workflow, or for none. -/
theorem Request.May.owner {request : Request} {call : StorageCall} (h : request.May call)
    {workflowId : String} (hid : request.workflowId? = some workflowId) :
    call.sweeps = false ∧ (call.owner? = none ∨ call.owner? = some workflowId) := by
  have hplace : ∀ {workflowId' position}, request.place? = some (workflowId', position) →
      workflowId' = workflowId := by
    intro workflowId' position hplace
    cases request <;> cases hplace <;> exact Option.some.inj hid
  have hkey : ∀ {key}, request.LeaseKey key → keyOwner key = workflowId := by
    rintro key ⟨workflowId', position, hp, rfl⟩
    rw [keyOwner_generateLeasedCheckpointKey, hplace hp]
  have hown : ∀ {workflowId'}, request.workflowId? = some workflowId' →
    workflowId' = workflowId := by
    intro workflowId' h'
    rw [hid] at h'
    exact (Option.some.inj h').symm
  have hsweep : request ≠ .cleanUp := by
    intro heq
    rw [heq] at hid
    contradiction
  cases call with
  | selectCheckpoint workflowId' position => exact ⟨rfl, .inr (congrArg some (hplace h))⟩
  | insertCheckpoint workflowId' position key value at' =>
      exact ⟨rfl, .inr (congrArg some (hplace h.1))⟩
  | selectFencingToken workflowId' => exact ⟨rfl, .inr (congrArg some (hown h))⟩
  | insertFencingToken workflowId' token => exact ⟨rfl, .inr (congrArg some (hown h))⟩
  | insertWorkflow id status at' name => exact ⟨rfl, .inr (congrArg some (hown h))⟩
  | selectWorkflow id => exact ⟨rfl, .inr (congrArg some (hown h))⟩
  | updateWorkflow expireAt status completedAt id => exact ⟨rfl, .inr (congrArg some (hown h))⟩
  | cacheGet key => exact ⟨rfl, .inr (congrArg some (hkey h))⟩
  | cachePut key lease ttl => exact ⟨rfl, .inr (congrArg some (hkey h))⟩
  | cacheDelete key => exact ⟨rfl, .inr (congrArg some (hkey h))⟩
  | deleteFencingTokens at' status => exact absurd h hsweep
  | deleteCheckpoints at' status => exact absurd h hsweep
  | deleteWorkflows at' status => exact absurd h hsweep
  | isLeaderDb => exact ⟨rfl, .inl rfl⟩
  | utcNow => exact ⟨rfl, .inl rfl⟩
  | newV4 => exact ⟨rfl, .inl rfl⟩

/-- Two worlds are the same to one workflow. -/
structure World.Alike (id : String) (w w' : World) : Prop where
  now : w.now = w'.now
  workflows : w.workflows id = w'.workflows id
  fencingTokens : w.fencingTokens id = w'.fencingTokens id
  checkpoints : w.checkpoints id = w'.checkpoints id
  cache : ∀ key, keyOwner key = id → w.cache key = w'.cache key

namespace World.Alike

variable {id : String} {w w' w'' : World}

theorem refl (w : World) : w.Alike id w := ⟨rfl, rfl, rfl, rfl, fun _ _ => rfl⟩

theorem trans (h : w.Alike id w') (h' : w'.Alike id w'') : w.Alike id w'' where
  now := h.now.trans h'.now
  workflows := h.workflows.trans h'.workflows
  fencingTokens := h.fencingTokens.trans h'.fencingTokens
  checkpoints := h.checkpoints.trans h'.checkpoints
  cache := fun key hkey => (h.cache key hkey).trans (h'.cache key hkey)

theorem expired (h : w.Alike id w') (currentTimestamp status : Int) :
    w.expired currentTimestamp status id = w'.expired currentTimestamp status id := by
  rw [World.expired, World.expired, h.workflows]

/-! ### the same update on both sides -/

theorem setCheckpoint (h : w.Alike id w') (workflowId : String) (position : Int)
    (row : Checkpoint) :
    (w.setCheckpoint workflowId position row).Alike id
      (w'.setCheckpoint workflowId position row) :=
  { h with
    checkpoints := by
      funext position'
      rw [World.setCheckpoint_checkpoints, World.setCheckpoint_checkpoints, h.checkpoints] }

theorem setFencingToken (h : w.Alike id w') (workflowId : String) (token : Int) :
    (w.setFencingToken workflowId token).Alike id (w'.setFencingToken workflowId token) :=
  { h with
    fencingTokens := by
      rw [World.setFencingToken_fencingTokens, World.setFencingToken_fencingTokens,
        h.fencingTokens] }

theorem setWorkflow (h : w.Alike id w') (workflowId : String) (row : Workflow) :
    (w.setWorkflow workflowId row).Alike id (w'.setWorkflow workflowId row) :=
  { h with
    workflows := by
      simp only [World.setWorkflow, Function.update_apply, h.workflows] }

theorem setCache (h : w.Alike id w') (key : String) (entry : Option CachedLease) :
    (w.setCache key entry).Alike id (w'.setCache key entry) :=
  { h with
    cache := by
      intro key' hkey'
      rw [World.setCache_cache, World.setCache_cache, h.cache key' hkey'] }

end World.Alike

section Exec

variable {id : String} {w w' : World}

/-- One call on either side, with the same fault. -/
theorem Fault.apply_alike {α : Type} {fault : Fault} {reply reply' : α}
    {before before' after after' : World} (hr : reply = reply') (hb : before.Alike id before')
    (ha : after.Alike id after') :
    (fault.apply reply before after).1 = (fault.apply reply' before' after').1 ∧
      (fault.apply reply before after).2.Alike id (fault.apply reply' before' after').2 := by
  subst hr
  cases fault with
  | none => exact ⟨rfl, ha⟩
  | refused => exact ⟨rfl, hb⟩
  | unacknowledged => exact ⟨rfl, ha⟩

/-- A call for the workflow, or for none, gets the same reply in worlds alike
to it and leaves them alike. -/
theorem StorageCall.exec_alike (env : Env) {call : StorageCall}
    (hc : call.owner? = none ∨ call.owner? = some id) (h : w.Alike id w') :
    (call.exec env w).1 = (call.exec env w').1 ∧
      (call.exec env w).2.Alike id (call.exec env w').2 := by
  have hown : ∀ {workflowId}, (some workflowId = none ∨ some workflowId = some id) →
      workflowId = id := by
    intro workflowId ho
    rcases ho with ho | ho
    · contradiction
    · exact Option.some.inj ho
  cases call with
  | selectCheckpoint workflowId position =>
      cases hown hc
      exact Fault.apply_alike (by rw [h.checkpoints]) h h
  | insertCheckpoint workflowId position key value createdAt =>
      cases hown hc
      simp only [StorageCall.exec, h.checkpoints]
      exact Fault.apply_alike rfl h (h.setCheckpoint _ _ _)
  | selectFencingToken workflowId =>
      cases hown hc
      exact Fault.apply_alike h.fencingTokens h h
  | insertFencingToken workflowId token =>
      cases hown hc
      simp only [StorageCall.exec, h.fencingTokens]
      exact Fault.apply_alike rfl h (h.setFencingToken _ _)
  | insertWorkflow workflowId status createdAt name =>
      cases hown hc
      simp only [StorageCall.exec, h.workflows]
      exact Fault.apply_alike rfl h (h.setWorkflow _ _)
  | selectWorkflow workflowId =>
      cases hown hc
      exact Fault.apply_alike h.workflows h h
  | updateWorkflow expireAt status completedAt workflowId =>
      cases hown hc
      refine Fault.apply_alike rfl h ?_
      rw [h.workflows]
      cases w'.workflows id with
      | none => exact h
      | some row => exact h.setWorkflow _ _
  | deleteFencingTokens currentTimestamp status =>
      refine Fault.apply_alike rfl h { h with fencingTokens := ?_ }
      dsimp only
      rw [h.expired, h.fencingTokens]
  | deleteCheckpoints currentTimestamp status =>
      refine Fault.apply_alike rfl h { h with checkpoints := ?_ }
      dsimp only
      rw [h.expired, h.checkpoints]
  | deleteWorkflows currentTimestamp status =>
      refine Fault.apply_alike rfl h { h with workflows := ?_ }
      dsimp only
      rw [h.expired, h.workflows]
  | cacheGet key =>
      exact Fault.apply_alike (by rw [h.cache key (hown hc)]) h h
  | cachePut key lease ttl =>
      simp only [StorageCall.exec, h.now]
      exact Fault.apply_alike rfl h (h.setCache _ _)
  | cacheDelete key => exact Fault.apply_alike rfl h (h.setCache _ _)
  | isLeaderDb => exact ⟨rfl, h⟩
  | utcNow => exact ⟨h.now, h⟩
  | newV4 => exact ⟨rfl, h⟩

/-- A call for another workflow leaves this one as it was. -/
theorem StorageCall.exec_elsewhere (env : Env) {call : StorageCall} (hs : call.sweeps = false)
    (hc : call.owner? ≠ some id) (w : World) : (call.exec env w).2.Alike id w := by
  have hother : ∀ {workflowId}, some workflowId ≠ some id → id ≠ workflowId := by
    intro workflowId ho heq
    exact ho (congrArg some heq.symm)
  have hself : w.Alike id w := .refl w
  refine exec_preserves env call w (·.Alike id w) hself fun _ => ?_
  cases call with
  | insertCheckpoint workflowId position key value createdAt =>
      refine { hself with checkpoints := ?_ }
      funext position'
      simp only [effect, exec, Fault.apply, World.setCheckpoint_checkpoints]
      rw [if_neg fun h => hother hc h.1]
  | insertFencingToken workflowId token =>
      refine { hself with fencingTokens := ?_ }
      simp only [effect, exec, Fault.apply, World.setFencingToken_fencingTokens,
        if_neg (hother hc)]
  | insertWorkflow workflowId status createdAt name =>
      refine { hself with workflows := ?_ }
      simp only [effect, exec, Fault.apply, World.setWorkflow,
        Function.update_of_ne (hother hc)]
  | updateWorkflow expireAt status completedAt workflowId =>
      simp only [effect, exec, Fault.apply]
      cases w.workflows workflowId with
      | none => exact hself
      | some row =>
          refine { hself with workflows := ?_ }
          simp only [World.setWorkflow, Function.update_of_ne (hother hc)]
  | cachePut key lease ttl =>
      refine { hself with cache := fun key' hkey' => ?_ }
      simp only [effect, exec, Fault.apply, World.setCache_cache]
      rw [if_neg]
      intro heq
      exact hother hc (by rw [← hkey', heq])
  | cacheDelete key =>
      refine { hself with cache := fun key' hkey' => ?_ }
      simp only [effect, exec, Fault.apply, World.setCache_cache]
      rw [if_neg]
      intro heq
      exact hother hc (by rw [← hkey', heq])
  | deleteFencingTokens currentTimestamp status => contradiction
  | deleteCheckpoints currentTimestamp status => contradiction
  | deleteWorkflows currentTimestamp status => contradiction
  | _ => exact hself

end Exec

/-! ## A workflow's view -/

/-- The requests that concern a workflow: its own, and cleanup. -/
def Request.concerns (id : String) (request : Request) : Bool :=
  request.workflowId?.all (· == id)

/-- The drifts that concern a workflow: the clock, and its own keys. -/
def Drift.concerns (id : String) : Drift → Bool
  | .tick _ => true
  | .evict key => keyOwner key == id

/-- A run without the requests for all other workflows. -/
def withoutOthers (id : String) (ls : List (Pool.Label Request Env Drift)) :
    List (Pool.Label Request Env Drift) :=
  Pool.hide (Request.concerns id) (Drift.concerns id) (fun _ => false) ls

/-- The requests that concern a workflow call for it or for none, and lock its
keys. -/
theorem Request.confined_of_concerns {id : String} {request : Request}
    (h : request.concerns id = true) :
    request.handler.Confined (fun call => call.owner? = none ∨ call.owner? = some id)
      (keyOwner · = id) := by
  cases hid : request.workflowId? with
  | some workflowId =>
      simp only [Request.concerns, hid, Option.all_some, beq_iff_eq] at h
      rw [h] at hid
      refine request.confined.mono (fun call hmay => (hmay.owner hid).2) fun key hkey => ?_
      have hmay : request.May (.cacheGet key) := hkey
      rcases (hmay.owner hid).2 with howner | howner
      · contradiction
      · exact Option.some.inj howner
  | none =>
      have hclean : request = .cleanUp := by cases request <;> first | rfl | contradiction
      subst hclean
      have hkey : ∀ key, ¬ Request.cleanUp.LeaseKey key := by
        rintro key ⟨workflowId, position, hplace, -⟩
        contradiction
      refine handleWorkflowCleanup_confined.mono (fun call hmay => ?_) fun key hk =>
        absurd hk (hkey key)
      cases call with
      | cacheGet key => exact absurd hmay (hkey key)
      | cachePut key lease ttl => exact absurd hmay (hkey key)
      | cacheDelete key => exact absurd hmay (hkey key)
      | deleteFencingTokens currentTimestamp status => exact .inl rfl
      | deleteCheckpoints currentTimestamp status => exact .inl rfl
      | deleteWorkflows currentTimestamp status => exact .inl rfl
      | isLeaderDb => exact .inl rfl
      | utcNow => exact .inl rfl
      | newV4 => exact .inl rfl
      | insertCheckpoint workflowId position key value createdAt =>
          exact absurd hmay.2 (by decide)
      | _ => contradiction

/-- The other requests delete nothing, and neither call for the workflow nor
lock its keys. -/
theorem Request.confined_of_not_concerns {id : String} {request : Request}
    (h : request.concerns id = false) :
    request.handler.Confined (fun call => call.sweeps = false ∧ call.owner? ≠ some id)
      (keyOwner · ≠ id) := by
  cases hid : request.workflowId? with
  | none =>
      rw [Request.concerns, hid] at h
      contradiction
  | some workflowId =>
      simp only [Request.concerns, hid, Option.all_some, beq_eq_false_iff_ne] at h
      refine request.confined.mono (fun call hmay => ?_) fun key hkey heq => ?_
      · obtain ⟨hsweeps, howner⟩ := hmay.owner hid
        refine ⟨hsweeps, fun heq => ?_⟩
        rcases howner with howner | howner
        · rw [howner] at heq
          contradiction
        · rw [howner, Option.some.injEq] at heq
          exact h heq
      · have hmay : request.May (.cacheGet key) := hkey
        rcases (hmay.owner hid).2 with howner | howner
        · contradiction
        · exact h ((Option.some.inj howner).symm.trans heq)

/-- The server as a workflow sees it. -/
def workflowView (evictable : CachedLease → Int → Bool) (id : String) :
    View (serverMachine evictable) where
  mine := Request.concerns id
  seen := Drift.concerns id
  own call := call.owner? = none ∨ call.owner? = some id
  near key := keyOwner key = id
  foreign call := call.sweeps = false ∧ call.owner? ≠ some id
  far key := keyOwner key ≠ id
  Agree := World.Alike id
  near_far _ hnear hfar := hfar hnear
  confined_own _ h := Request.confined_of_concerns h
  confined_foreign _ h := Request.confined_of_not_concerns h
  exec_own env _ _ _ hown halike := StorageCall.exec_alike env hown halike
  exec_foreign env _ w _ hforeign halike :=
    (StorageCall.exec_elsewhere env hforeign.1 hforeign.2 w).trans halike
  drift_seen := by
    intro d w w' t hseen halike hd
    cases d with
    | tick elapsed =>
        cases hd
        refine ⟨w'.tick elapsed, rfl, { halike with now := ?_ }⟩
        simp only [World.tick, halike.now]
    | evict key =>
        have hkey : keyOwner key = id := beq_iff_eq.mp hseen
        obtain ⟨entry, hc, he, rfl⟩ := World.evict_eq_some hd
        refine ⟨w'.setCache key none, ?_, halike.setCache key none⟩
        have hc' : w'.cache key = some entry := by rw [← halike.cache key hkey, hc]
        have he' : evictable entry w'.now = true := by rw [← halike.now, he]
        show w'.evict evictable key = _
        simp only [World.evict, hc', he', if_true]
  drift_unseen := by
    intro d w w' t hseen halike hd
    cases d with
    | tick elapsed => contradiction
    | evict key =>
        have hkey : keyOwner key ≠ id := beq_eq_false_iff_ne.mp hseen
        obtain ⟨entry, -, -, rfl⟩ := World.evict_eq_some hd
        refine { halike with cache := fun key' hkey' => ?_ }
        have hne : key' ≠ key := fun heq => hkey (heq ▸ hkey')
        rw [World.setCache_cache, if_neg hne, halike.cache key' hkey']

/-- A call of a request for one position leaves the row and the lease of every
other one. -/
theorem Request.May.elsewhere {request : Request} {call : StorageCall} (h : request.May call)
    {workflowId : String} {position : Int}
    (hplace : request.place? = some (workflowId, position)) {workflowId' : String}
    {position' : Int} (hne : ¬ (workflowId' = workflowId ∧ position' = position))
    (env : Env) (w : World) :
    (call.exec env w).2.checkpoints workflowId' position' =
      w.checkpoints workflowId' position' ∧
      (call.exec env w).2.cache (generateLeasedCheckpointKey workflowId' position') =
        w.cache (generateLeasedCheckpointKey workflowId' position') := by
  have hclean : request ≠ .cleanUp := by
    intro heq
    rw [heq] at hplace
    contradiction
  constructor
  · refine StorageCall.exec_preserves env call w (fun w' =>
      w'.checkpoints workflowId' position' = w.checkpoints workflowId' position')
        rfl fun _ => ?_
    cases call with
    | insertCheckpoint workflowId'' position'' key value createdAt =>
        have hat : request.place? = some (workflowId'', position'') := h.1
        rw [hplace, Option.some.injEq, Prod.mk.injEq] at hat
        simp only [StorageCall.effect, StorageCall.exec, Fault.apply,
          World.setCheckpoint_checkpoints, ← hat.1, ← hat.2, if_neg hne]
    | deleteCheckpoints currentTimestamp status => exact absurd h hclean
    | updateWorkflow expireAt status completedAt id =>
        rw [StorageCall.effect_updateWorkflow env w World.checkpoints fun _ _ => rfl]
    | _ => rfl
  · have hkey : ¬ request.LeaseKey (generateLeasedCheckpointKey workflowId' position') := by
      rintro ⟨workflowId'', position'', hat, heq⟩
      rw [hplace, Option.some.injEq, Prod.mk.injEq] at hat
      rw [← hat.1, ← hat.2, generateLeasedCheckpointKey_inj] at heq
      exact hne heq
    rcases StorageCall.exec_cache env call w
      (generateLeasedCheckpointKey workflowId' position') with
      hsame | ⟨lease, ttl, hput⟩ | hdelete
    · exact hsame
    · rw [hput] at h
      exact absurd h hkey
    · rw [hdelete] at h
      exact absurd h hkey

/-- Every call of a run is one its request may make. -/
theorem Handlers.Reached.may {evictable : CachedLease → Int → Bool} {P : Handlers}
    (hr : P.Reached evictable) {e : StorageEvent} (he : e ∈ P.trace) : e.tag.May e.op := by
  obtain ⟨later, earlier, hsplit⟩ := List.append_of_mem he
  exact hr.sound.obeyed hsplit (e.tag.confined.obeys [])

/-- **Non-interference**: without the requests for all other workflows, a run
goes through as well.  The requests of the workflow, and cleanup, then do and
reply the same, and its rows, its token and its leases are the same in the end.
And in any run a request for one position leaves the rows and leases of all
others. -/
theorem non_interference (evictable : CachedLease → Int → Bool) (id : String) {w : World}
    {ls : List (Pool.Label Request Env Drift)} {P : Handlers}
    (hrun : exec (Pool.step (serverMachine evictable)) (Pool.start w) ls = some P) :
    (∃ P' : Handlers,
        exec (Pool.step (serverMachine evictable)) (Pool.start w)
          (withoutOthers id ls) = some P' ∧
        P.shared.Alike id P'.shared ∧
        ∀ pid p, P'.procs pid = some p ↔ P.procs pid = some p ∧ p.tag.concerns id = true) ∧
      ∀ e ∈ P.trace, ∀ workflowId position, e.tag.place? = some (workflowId, position) →
        ∀ workflowId' position', ¬ (workflowId' = workflowId ∧ position' = position) →
          e.after.checkpoints workflowId' position' =
            e.before.checkpoints workflowId' position' ∧
          e.after.cache (generateLeasedCheckpointKey workflowId' position') =
            e.before.cache (generateLeasedCheckpointKey workflowId' position') := by
  constructor
  · have hstart : (workflowView evictable id).Matches (fun _ => false) (Pool.start w)
        (Pool.start w) := .start (World.Alike.refl w)
    obtain ⟨P', hidden, hrun', hm⟩ := View.hidden_run _ hstart hrun
    refine ⟨P', hrun', hm.shared, fun pid p => ?_⟩
    cases hh : hidden pid with
    | false =>
        rw [hm.same pid hh]
        exact ⟨fun hp => ⟨hp, (hm.mine pid p hh hp).1⟩, fun h => h.1⟩
    | true =>
        obtain ⟨hnone, q, hq, hother, -⟩ := hm.others pid hh
        constructor
        · intro hp
          rw [hnone] at hp
          contradiction
        · rintro ⟨hp, hmine⟩
          rw [hq, Option.some.injEq] at hp
          have hother' : q.tag.concerns id = false := hother
          rw [hp, hmine] at hother'
          contradiction
  · intro e he workflowId position hplace workflowId' position' hne
    have hr : P.Reached evictable := .of_exec (.start ⟨w, rfl⟩) hrun
    obtain ⟨env, hafter⟩ := hr.after_eq he
    rw [hafter]
    exact (hr.may he).elsewhere hplace hne env e.before

/-- A second workflow's id extends the first one's by a colon and a number. -/
def startsApart : List (Pool.Label Request Env Drift) :=
  arrives 0 payStart 2 ++
    arrives 1 (.workflowStart { workflowId := "pay:1", name := none }) 5 ++
    goesOn 0 3 ++ arrives 2 (payLease 1) 8

theorem started_apart :
    ∃ P P' : Handlers, runLabels startsApart = some P ∧
      runLabels (withoutOthers "pay" startsApart) = some P' ∧
        P.shared.Alike "pay" P'.shared := by
  obtain ⟨P, hP⟩ : ∃ P, runLabels startsApart = some P := Option.isSome_iff_exists.mp rfl
  obtain ⟨⟨P', hP', halike, -⟩, -⟩ := non_interference leaseExpired "pay" hP
  exact ⟨P, P', hP, hP', halike⟩

end IdempotentTransformer
