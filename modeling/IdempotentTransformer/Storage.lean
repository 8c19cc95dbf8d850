import IdempotentTransformer.Schema
import IdempotentTransformer.Library.Program

/-!
# IdempotentTransformer.Storage

What the server keeps, and the single calls it makes to it.

`World` is the state of hiqlite as one node sees it — the three SQL
tables, the cache — together with the clock.  `StorageCall` lists every
statement and cache operation the server issues (plus the readings of the
clock and of the UUID generator), and `StorageCall.exec` is what one such
call does.  A call is atomic; it may fail, and a write that fails may have
been applied all the same.

The SQL text of each statement is quoted at the call it models.
-/

namespace IdempotentTransformer

open Library

/-- An entry of the cache: the lease and the time to live it was put with. -/
structure CachedLease where
  lease : LeasedCheckpointValue
  ttl : Int
  putAt : Int
deriving DecidableEq, Repr

/-- The tables, the cache and the clock (milliseconds). -/
structure World where
  now : Int
  workflows : String → Option Workflow
  fencingTokens : String → Option Int
  checkpoints : String → Int → Option Checkpoint
  cache : String → Option CachedLease

namespace World

/-- Nothing stored. -/
def empty (now : Int) : World :=
  { now := now, workflows := fun _ => none, fencingTokens := fun _ => none,
    checkpoints := fun _ _ => none, cache := fun _ => none }

/-- The workflows `WHERE expire_at < $1 AND status = $2` selects; a missing
`expire_at` compares as unknown. -/
def expired (w : World) (currentTimestamp status : Int) (id : String) : Bool :=
  match w.workflows id with
  | some row =>
    match row.expireAt with
    | some expireAt => expireAt < currentTimestamp && row.status == status
    | none => false
  | none => false

/-- A workflow is selected for its row alone. -/
theorem expired_iff {w : World} {currentTimestamp status : Int} {id : String} :
    w.expired currentTimestamp status id = true ↔ ∃ row expireAt, w.workflows id = some row ∧
      row.expireAt = some expireAt ∧ expireAt < currentTimestamp ∧ row.status = status := by
  cases hrow : w.workflows id with
  | none => simp [expired, hrow]
  | some row => cases hexpire : row.expireAt <;> simp [expired, hrow, hexpire]

def setCheckpoint (w : World) (workflowId : String) (position : Int)
    (row : Checkpoint) : World :=
  { w with
    checkpoints := Function.update w.checkpoints workflowId
      (Function.update (w.checkpoints workflowId) position (some row)) }

def setCache (w : World) (key : String) (entry : Option CachedLease) : World :=
  { w with cache := Function.update w.cache key entry }

def setFencingToken (w : World) (workflowId : String) (token : Int) : World :=
  { w with fencingTokens := Function.update w.fencingTokens workflowId (some token) }

def setWorkflow (w : World) (id : String) (row : Workflow) : World :=
  { w with workflows := Function.update w.workflows id (some row) }

/-! ## What each update touches -/

section Projections

variable (w : World) (workflowId id key : String) (position token : Int) (row : Checkpoint)
  (entry : Option CachedLease) (workflow : Workflow)

@[simp] theorem setCheckpoint_now : (w.setCheckpoint workflowId position row).now = w.now := rfl
@[simp] theorem setCheckpoint_workflows :
    (w.setCheckpoint workflowId position row).workflows = w.workflows := rfl
@[simp] theorem setCheckpoint_fencingTokens :
    (w.setCheckpoint workflowId position row).fencingTokens = w.fencingTokens := rfl
@[simp] theorem setCheckpoint_cache :
    (w.setCheckpoint workflowId position row).cache = w.cache := rfl

@[simp] theorem setCache_now : (w.setCache key entry).now = w.now := rfl
@[simp] theorem setCache_workflows : (w.setCache key entry).workflows = w.workflows := rfl
@[simp] theorem setCache_fencingTokens :
    (w.setCache key entry).fencingTokens = w.fencingTokens := rfl
@[simp] theorem setCache_checkpoints : (w.setCache key entry).checkpoints = w.checkpoints := rfl

@[simp] theorem setFencingToken_now : (w.setFencingToken workflowId token).now = w.now := rfl
@[simp] theorem setFencingToken_workflows :
    (w.setFencingToken workflowId token).workflows = w.workflows := rfl
@[simp] theorem setFencingToken_checkpoints :
    (w.setFencingToken workflowId token).checkpoints = w.checkpoints := rfl
@[simp] theorem setFencingToken_cache :
    (w.setFencingToken workflowId token).cache = w.cache := rfl

@[simp] theorem setWorkflow_now : (w.setWorkflow id workflow).now = w.now := rfl
@[simp] theorem setWorkflow_fencingTokens :
    (w.setWorkflow id workflow).fencingTokens = w.fencingTokens := rfl
@[simp] theorem setWorkflow_checkpoints :
    (w.setWorkflow id workflow).checkpoints = w.checkpoints := rfl
@[simp] theorem setWorkflow_cache : (w.setWorkflow id workflow).cache = w.cache := rfl

theorem setCheckpoint_checkpoints (workflowId' : String) (position' : Int) :
    (w.setCheckpoint workflowId position row).checkpoints workflowId' position' =
      if workflowId' = workflowId ∧ position' = position then some row
      else w.checkpoints workflowId' position' := by
  simp only [setCheckpoint, Function.update_apply]
  by_cases hw : workflowId' = workflowId
  · subst hw
    by_cases hp : position' = position <;> simp [hp]
  · simp [hw]

theorem setCache_cache (key' : String) :
    (w.setCache key entry).cache key' = if key' = key then entry else w.cache key' := by
  simp only [setCache, Function.update_apply]

theorem setFencingToken_fencingTokens (workflowId' : String) :
    (w.setFencingToken workflowId token).fencingTokens workflowId' =
      if workflowId' = workflowId then some token else w.fencingTokens workflowId' := by
  simp only [setFencingToken, Function.update_apply]

end Projections

end World

/-! ## Storage calls -/

inductive StorageCall
  /-- `SELECT position, idempotency_key, value FROM Checkpoints WHERE workflow_id = $1 AND
  position = $2` -/
  | selectCheckpoint (workflowId : String) (position : Int)
  /-- `INSERT INTO Checkpoints (workflow_id, position, idempotency_key, value, created_at)
  VALUES ($1, $2, $3, $4, $5) ON CONFLICT (workflow_id, position) DO UPDATE SET
  created_at = $5` -/
  | insertCheckpoint (workflowId : String) (position : Int) (idempotencyKey : String)
      (value : Option Bytes) (createdAt : Int)
  /-- `SELECT fencing_token FROM WorkflowFencingTokens WHERE workflow_id = $1` -/
  | selectFencingToken (workflowId : String)
  /-- `INSERT INTO WorkflowFencingTokens (workflow_id, fencing_token) VALUES ($1, $2) ON
  CONFLICT (workflow_id) DO UPDATE SET fencing_token = WorkflowFencingTokens.fencing_token + 1
  RETURNING fencing_token` -/
  | insertFencingToken (workflowId : String) (fencingToken : Int)
  /-- `INSERT INTO Workflows (id, status, created_at, name) VALUES ($1, $2, $3, $4) ON CONFLICT
  (id) DO UPDATE SET name = $4 RETURNING *` -/
  | insertWorkflow (id : String) (status createdAt : Int) (name : Option String)
  /-- `SELECT * FROM Workflows WHERE id = $1` -/
  | selectWorkflow (id : String)
  /-- `UPDATE Workflows SET expire_at = $1, status = $2, completed_at = $3  WHERE id = $4` -/
  | updateWorkflow (expireAt status completedAt : Int) (id : String)
  /-- `DELETE FROM WorkflowFencingTokens WHERE workflow_id IN (SELECT id FROM Workflows WHERE
  expire_at < $1 AND status = $2)` -/
  | deleteFencingTokens (currentTimestamp status : Int)
  /-- `DELETE FROM Checkpoints WHERE workflow_id IN (SELECT id FROM Workflows WHERE
  expire_at < $1 AND status = $2)` -/
  | deleteCheckpoints (currentTimestamp status : Int)
  /-- `DELETE FROM Workflows WHERE expire_at < $1 AND status = $2` -/
  | deleteWorkflows (currentTimestamp status : Int)
  /-- `client.get(Cache::One, key)` -/
  | cacheGet (key : String)
  /-- `client.put(Cache::One, key, value, Some(ttl))` -/
  | cachePut (key : String) (value : LeasedCheckpointValue) (ttl : Int)
  /-- `client.delete(Cache::One, key)` -/
  | cacheDelete (key : String)
  /-- `client.is_leader_db()` -/
  | isLeaderDb
  /-- `Utc::now().timestamp_millis()` -/
  | utcNow
  /-- `Uuid::new_v4()` -/
  | newV4
deriving DecidableEq, Repr

/-- The type of a call's reply. -/
def StorageCall.Reply : StorageCall → Type
  | .selectCheckpoint .. => Except HiqliteError (Option CheckpointValue)
  | .insertCheckpoint .. => Except HiqliteError Unit
  | .selectFencingToken .. => Except HiqliteError (Option Int)
  | .insertFencingToken .. => Except HiqliteError Int
  | .insertWorkflow .. => Except HiqliteError Workflow
  | .selectWorkflow .. => Except HiqliteError (Option Workflow)
  | .updateWorkflow .. => Except HiqliteError Unit
  | .deleteFencingTokens .. => Except HiqliteError Unit
  | .deleteCheckpoints .. => Except HiqliteError Unit
  | .deleteWorkflows .. => Except HiqliteError Unit
  | .cacheGet .. => Except HiqliteError (Option LeasedCheckpointValue)
  | .cachePut .. => Except HiqliteError Unit
  | .cacheDelete .. => Except HiqliteError Unit
  | .isLeaderDb => Bool
  | .utcNow => Int
  | .newV4 => String

/-- How a storage call goes. -/
inductive Fault
  /-- It succeeds. -/
  | none
  /-- It fails and has no effect. -/
  | refused
  /-- It takes effect but its caller is told that it failed. -/
  | unacknowledged
deriving DecidableEq, Repr

/-- What a call depends on besides the world. -/
structure Env where
  fault : Fault
  minted : String
  leader : Bool
deriving DecidableEq, Repr

/-- A call answered with `reply` that turns `before` into `after`, under a
fault. -/
def Fault.apply {α : Type} (fault : Fault) (reply : α) (before after : World) :
    Except HiqliteError α × World :=
  match fault with
  | .none => (.ok reply, after)
  | .refused => (.error .failed, before)
  | .unacknowledged => (.error .failed, after)

/-- The row an upsert of a checkpoint leaves: on conflict only `created_at`
changes. -/
def upsertCheckpoint (old : Option Checkpoint) (idempotencyKey : String) (value : Option Bytes)
    (createdAt : Int) : Checkpoint :=
  match old with
  | some row => { row with createdAt := createdAt }
  | none => { idempotencyKey := idempotencyKey, value := value, createdAt := createdAt }

/-- The token an upsert of a fencing token leaves. -/
def upsertFencingToken (old : Option Int) (fencingToken : Int) : Int :=
  match old with
  | some token => token + 1
  | none => fencingToken

/-- The row an upsert of a workflow leaves: on conflict only `name` changes. -/
def upsertWorkflow (old : Option Workflow) (id : String) (status createdAt : Int)
    (name : Option String) : Workflow :=
  match old with
  | some row => { row with name := name }
  | none => { id := id, status := status, expireAt := none, completedAt := none, name := name,
              createdAt := createdAt }

/-- One storage call. -/
def StorageCall.exec (env : Env) : (call : StorageCall) → World → call.Reply × World
  | .selectCheckpoint workflowId position, w =>
      env.fault.apply ((w.checkpoints workflowId position).map fun row =>
        { position := position, idempotencyKey := row.idempotencyKey, value := row.value }) w w
  | .insertCheckpoint workflowId position idempotencyKey value createdAt, w =>
      env.fault.apply () w (w.setCheckpoint workflowId position
        (upsertCheckpoint (w.checkpoints workflowId position) idempotencyKey value createdAt))
  | .selectFencingToken workflowId, w => env.fault.apply (w.fencingTokens workflowId) w w
  | .insertFencingToken workflowId fencingToken, w =>
      let token := upsertFencingToken (w.fencingTokens workflowId) fencingToken
      env.fault.apply token w (w.setFencingToken workflowId token)
  | .insertWorkflow id status createdAt name, w =>
      let row := upsertWorkflow (w.workflows id) id status createdAt name
      env.fault.apply row w (w.setWorkflow id row)
  | .selectWorkflow id, w => env.fault.apply (w.workflows id) w w
  | .updateWorkflow expireAt status completedAt id, w =>
      env.fault.apply () w
        (match w.workflows id with
          | some row => w.setWorkflow id
              { row with
                expireAt := some expireAt, status := status, completedAt := some completedAt }
          | none => w)
  | .deleteFencingTokens currentTimestamp status, w =>
      env.fault.apply () w { w with
        fencingTokens := fun id =>
          if w.expired currentTimestamp status id then none else w.fencingTokens id }
  | .deleteCheckpoints currentTimestamp status, w =>
      env.fault.apply () w { w with
        checkpoints := fun id position =>
          if w.expired currentTimestamp status id then none else w.checkpoints id position }
  | .deleteWorkflows currentTimestamp status, w =>
      env.fault.apply () w { w with
        workflows := fun id =>
          if w.expired currentTimestamp status id then none else w.workflows id }
  | .cacheGet key, w => env.fault.apply ((w.cache key).map CachedLease.lease) w w
  | .cachePut key value ttl, w =>
      env.fault.apply () w
        (w.setCache key (some { lease := value, ttl := ttl, putAt := w.now }))
  | .cacheDelete key, w => env.fault.apply () w (w.setCache key none)
  | .isLeaderDb, w => (env.leader, w)
  | .utcNow, w => (w.now, w)
  | .newV4, w => (env.minted, w)

/-! ## What a call reads and what it changes -/

namespace Fault

variable {α : Type} {fault : Fault} {reply : α} {before after : World}

/-- A call that is acknowledged has replied the truth and taken effect. -/
theorem apply_eq_ok {r : α} {w : World} (h : fault.apply reply before after = (.ok r, w)) :
    r = reply ∧ w = after := by
  cases fault with
  | none => cases h; exact ⟨rfl, rfl⟩
  | refused => cases h
  | unacknowledged => cases h

/-- A call has all of its effect or none, and none if it is refused. -/
theorem apply_world : (fault.apply reply before after).2 = before ∨
    fault ≠ .refused ∧ (fault.apply reply before after).2 = after := by
  cases fault with
  | none => exact .inr ⟨by simp, rfl⟩
  | refused => exact .inl rfl
  | unacknowledged => exact .inr ⟨by simp, rfl⟩

end Fault

namespace StorageCall

variable (env : Env) (call : StorageCall) (w : World)

variable {env call w} in
/-- A call did what its reply says. -/
theorem exec_of_eq {call' : StorageCall} {reply : call'.Reply}
    (h : (⟨call, (call.exec env w).1⟩ : (op : StorageCall) × op.Reply) = ⟨call', reply⟩) :
    call'.exec env w = (reply, (call.exec env w).2) := by
  cases h
  rfl

/-- What a call leaves where it takes effect. -/
def effect : World :=
  (call.exec { fault := .none, minted := env.minted, leader := env.leader } w).2

theorem exec_world : (call.exec env w).2 = w ∨
    env.fault ≠ .refused ∧ (call.exec env w).2 = call.effect env w := by
  cases call with
  | isLeaderDb => exact .inl rfl
  | utcNow => exact .inl rfl
  | newV4 => exact .inl rfl
  | _ => exact Fault.apply_world

/-- **What holds before a call and after its effect holds of what it leaves**,
whatever its fault. -/
theorem exec_preserves (I : World → Prop) (hbefore : I w)
    (hafter : env.fault ≠ .refused → I (call.effect env w)) : I (call.exec env w).2 := by
  have hworld : (call.exec env w).2 = w ∨
      env.fault ≠ .refused ∧ (call.exec env w).2 = call.effect env w := exec_world env call w
  rcases hworld with h | ⟨hfault, h⟩
  · rw [h]
    exact hbefore
  · rw [h]
    exact hafter hfault

/-- What storing a workflow's row leaves alone, completing a workflow does. -/
theorem effect_updateWorkflow {α : Type} (f : World → α)
    (hf : ∀ id row, f (w.setWorkflow id row) = f w) (expireAt status completedAt : Int)
    (id : String) :
    f ((updateWorkflow expireAt status completedAt id).effect env w) = f w := by
  simp only [effect, exec, Fault.apply]
  cases w.workflows id with
  | none => rfl
  | some row => exact hf id _

/-- No call moves the clock. -/
@[simp] theorem exec_now : (call.exec env w).2.now = w.now := by
  refine exec_preserves env call w (fun w' => w'.now = w.now) rfl fun _ => ?_
  cases call with
  | updateWorkflow expireAt status completedAt id =>
      exact effect_updateWorkflow env w World.now (fun _ _ => rfl) _ _ _ _
  | _ => rfl

/-- The cache entry of a key changes only by being put or deleted. -/
theorem exec_cache (key : String) :
    (call.exec env w).2.cache key = w.cache key ∨
      (∃ lease ttl, call = .cachePut key lease ttl) ∨
      call = .cacheDelete key := by
  by_cases hput : ∃ lease ttl, call = .cachePut key lease ttl
  · exact .inr (.inl hput)
  by_cases hdelete : call = .cacheDelete key
  · exact .inr (.inr hdelete)
  refine .inl (exec_preserves env call w (fun w' => w'.cache key = w.cache key) rfl fun _ => ?_)
  cases call with
  | cachePut key' lease ttl =>
      have hne : key ≠ key' := fun heq => hput ⟨lease, ttl, by rw [heq]⟩
      simp [effect, exec, Fault.apply, World.setCache_cache, hne]
  | cacheDelete key' =>
      have hne : key ≠ key' := fun heq => hdelete (by rw [heq])
      simp [effect, exec, Fault.apply, World.setCache_cache, hne]
  | updateWorkflow expireAt status completedAt id =>
      exact effect_updateWorkflow env w (fun w' => w'.cache key) (fun _ _ => rfl) _ _ _ _
  | _ => rfl

/-- A stored row changes at most its `created_at`, unless rows are deleted. -/
theorem exec_row
    (hdelete : ∀ currentTimestamp status, call ≠ .deleteCheckpoints currentTimestamp status)
    {workflowId : String} {position : Int} {row : Checkpoint}
    (h : w.checkpoints workflowId position = some row) :
    ∃ createdAt, (call.exec env w).2.checkpoints workflowId position =
      some { row with createdAt := createdAt } := by
  have hsame : ∀ w' : World, w'.checkpoints = w.checkpoints →
      ∃ createdAt, w'.checkpoints workflowId position =
        some { row with createdAt := createdAt } :=
    fun w' h' => ⟨row.createdAt, by rw [h', h]⟩
  refine exec_preserves env call w (fun w' => ∃ createdAt, w'.checkpoints workflowId position =
    some { row with createdAt := createdAt }) (hsame w rfl) fun _ => ?_
  cases call with
  | insertCheckpoint workflowId' position' idempotencyKey value createdAt =>
      simp only [effect, exec, Fault.apply, World.setCheckpoint_checkpoints]
      split
      · next heq =>
          obtain ⟨rfl, rfl⟩ := heq
          rw [h]
          exact ⟨createdAt, rfl⟩
      · exact hsame w rfl
  | deleteCheckpoints currentTimestamp status => exact absurd rfl (hdelete _ _)
  | updateWorkflow expireAt status completedAt id =>
      exact hsame _ (effect_updateWorkflow env w World.checkpoints (fun _ _ => rfl) _ _ _ _)
  | _ => exact hsame _ rfl

/-- A stored token only grows, unless it is deleted with its workflow. -/
theorem exec_token {workflowId : String} {token : Int}
    (hdelete : ∀ currentTimestamp status, call = .deleteFencingTokens currentTimestamp status →
      w.expired currentTimestamp status workflowId = false)
    (h : w.fencingTokens workflowId = some token) :
    ∃ token', (call.exec env w).2.fencingTokens workflowId = some token' ∧ token ≤ token' := by
  have hsame : ∀ w' : World, w'.fencingTokens = w.fencingTokens →
      ∃ token', w'.fencingTokens workflowId = some token' ∧ token ≤ token' :=
    fun w' h' => ⟨token, by rw [h', h], Int.le_refl token⟩
  refine exec_preserves env call w
    (fun w' => ∃ token', w'.fencingTokens workflowId = some token' ∧
    token ≤ token') (hsame w rfl) fun _ => ?_
  cases call with
  | insertFencingToken workflowId' fencingToken =>
      simp only [effect, exec, Fault.apply, World.setFencingToken_fencingTokens]
      split
      · next heq =>
          subst heq
          exact ⟨token + 1, by rw [h]; rfl, by omega⟩
      · exact hsame w rfl
  | deleteFencingTokens currentTimestamp status =>
      refine ⟨token, ?_, Int.le_refl token⟩
      simp [effect, exec, Fault.apply, hdelete _ _ rfl, h]
  | updateWorkflow expireAt status completedAt id =>
      exact hsame _ (effect_updateWorkflow env w World.fencingTokens (fun _ _ => rfl) _ _ _ _)
  | _ => exact hsame _ rfl

end StorageCall

end IdempotentTransformer
