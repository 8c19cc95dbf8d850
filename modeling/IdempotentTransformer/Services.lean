import IdempotentTransformer.Repositories

/-!
# IdempotentTransformer.Services

The handlers of `checkpoint_service` and `workflow_service`.

`unwrap()` on an option the line before has found to be `Some` is
`Option.getD`.
-/

namespace IdempotentTransformer

open Library

/-! ## checkpoint_service -/

/-- The remaining lease timeout in milliseconds at `now`. -/
def remainingLeaseTimeout (leased : LeasedCheckpointValue) (now : Int) : Int :=
  saturatingSub (saturatingAdd leased.createdAt leased.leaseTimeout) now

def diffLeaseExpiryFromNow (leased : LeasedCheckpointValue) : Handler Int := do
  let now ← utcNow
  return remainingLeaseTimeout leased now

def handleCheckpoint (data : CheckpointInput) : Handler CheckpointOutput := do
  let (internalFencingToken, leasedCheckpoint) ← Handler.join
    (getWorkflowFencingToken data.workflowId)
    (removeLeasedCheckpoint data.workflowId data.position)
  let storedFencingToken ← Handler.ofResult internalFencingToken
  let leasedCheckpoint ← Handler.ofResult leasedCheckpoint
  returnErrorIfTrue storedFencingToken.isNone (.io .NotFound "fencing_token_not_found")
  let isFencingTokenExpired := decide (storedFencingToken.getD 0 > data.fencingToken)
  -- Reject the result if the lease timeout is expired and the token is too.
  if let some leased := leasedCheckpoint then
    if (← diffLeaseExpiryFromNow leased) ≤ 0 then
      returnErrorIfTrue isFencingTokenExpired (.io .InvalidData "fencing_token_expired")
  createCheckpoint data.workflowId (some data.value) data.position data.idempotencyKey
  return { abort := isFencingTokenExpired }

def handleLeaseCheckpoint (data : LeaseCheckpointInput) : Handler LeaseCheckpointOutput := do
  let result ← getCheckpoint data.workflowId data.position
  if let some checkpoint := result then
    returnErrorIfTrue (checkpoint.idempotencyKey != data.idempotencyKey)
      (.io .Interrupted "non_deterministic_checkpoint_found")
    returnErrorIfTrue checkpoint.value.isNone (.io .InvalidData "checkpoint_value_not_found")
    return { response := some (.CheckpointValue (checkpoint.value.getD [])) }
  let lockKey := s!"{data.workflowId}:{data.position}"
  -- `let _ = client.lock(..)` binds no variable: the guard is dropped at once.
  Handler.lock lockKey
  Handler.dropGuard lockKey
  let sentFencingToken := data.fencingToken
  let (leasedCheckpointResult, workflowFencingToken) ← Handler.join
    (getLeasedCheckpoint data.workflowId data.position)
    (getWorkflowFencingToken data.workflowId)
  let leasedCheckpointOption ← Handler.ofResult leasedCheckpointResult
  let foundFencingToken ← Handler.ofResult workflowFencingToken
  if let some leased := leasedCheckpointOption then
    let remainingTime ← diffLeaseExpiryFromNow leased
    if remainingTime > 0 then
      return { response := some (.RemainingLeaseTimeout remainingTime) }
  returnErrorIfTrue foundFencingToken.isNone (.io .InvalidData "fencing_token_not_found")
  let storedFencingToken := foundFencingToken.getD 0
  returnErrorIfTrue (storedFencingToken > sentFencingToken)
    (.io .InvalidData "fencing_token_expired")
  if sentFencingToken = storedFencingToken then
    let _ ← leaseCheckpoint data.workflowId data.position data.leaseTimeout
    return { response := none }
  Handler.fail (.io .Other "unexpected state")

def releaseCheckpoint (data : ReleaseCheckpointInput) : Handler Unit := do
  let _ ← removeLeasedCheckpoint data.workflowId data.position
  return ()

def createDurableIdempotencyKey (data : CreateDurableIdempotencyKeyInput) :
    Handler CreateDurableIdempotencyKeyOutput := do
  let lockKey := s!"{data.workflowId}:{data.position}"
  -- Dropped at once here too.
  Handler.lock lockKey
  Handler.dropGuard lockKey
  let result ← getCheckpoint data.workflowId data.position
  if let some checkpoint := result then
    return { idempotencyKey := checkpoint.idempotencyKey }
  let sentFencingToken := data.fencingToken
  let workflowFencingToken ← getWorkflowFencingToken data.workflowId
  returnErrorIfTrue workflowFencingToken.isNone (.io .InvalidData "fencing_token_not_found")
  returnErrorIfTrue (workflowFencingToken.getD 0 > sentFencingToken)
    (.io .InvalidData "fencing_token_expired")
  let idempotencyKey ← newV4
  createCheckpoint data.workflowId none data.position idempotencyKey
  return { idempotencyKey := idempotencyKey }

/-! ## workflow_service -/

def createWorkflow (data : CreateWorkflowInput) : Handler CreateWorkflowOutput := do
  let (_, fencingToken) ← Handler.join
    (createOrGetWorkflow data.workflowId .Running data.name)
    (incrementWorkflowFencingToken data.workflowId 1)
  return { fencingToken := ← Handler.ofResult fencingToken }

def finishWorkflow (data : FinishWorkflowInput) : Handler Unit := do
  let token ← getWorkflowFencingToken data.workflowId
  returnErrorIfTrue token.isNone (.io .NotFound "fencing_token_not_found")
  returnErrorIfTrue (token.getD 0 < data.fencingToken)
    (.io .InvalidData "fencing_token_expired")
  let expireAt := wrappingAdd (← utcNow) data.expireAfter
  let completedAt ← utcNow
  Handler.await (StorageCall.updateWorkflow expireAt WorkflowStatus.Completed.toInt completedAt
    data.workflowId).send

def handleWorkflowCleanup : Handler Unit := do
  if !(← isLeaderDb) then
    return ()
  let currentTimestamp ← utcNow
  let status := WorkflowStatus.Completed.toInt
  let (fencingTokens, checkpoints) ← Handler.join
    (deleteExpiredWorkflowFencingTokens currentTimestamp status)
    (deleteExpiredCheckpoints currentTimestamp status)
  Handler.ofResult fencingTokens
  Handler.ofResult checkpoints
  deleteExpiredWorkflows currentTimestamp status

/-! ## Requests -/

/-- The program a request starts. -/
def Request.handler : Request → Handler Response
  | .workflowStart data => do return .workflowStart (← createWorkflow data)
  | .checkpoint data => do return .checkpoint (← handleCheckpoint data)
  | .leaseCheckpoint data => do return .leaseCheckpoint (← handleLeaseCheckpoint data)
  | .completeWorkflow data => do
      finishWorkflow data
      return .completeWorkflow
  | .workflowStatus workflowId => do return .workflowStatus (← getWorkflow workflowId)
  | .releaseCheckpoint data => do
      IdempotentTransformer.releaseCheckpoint data
      return .releaseCheckpoint
  | .generateIdempotencyKey data => do
      return .generateIdempotencyKey (← createDurableIdempotencyKey data)
  | .cleanUp => do
      handleWorkflowCleanup
      return .cleanUp

end IdempotentTransformer
