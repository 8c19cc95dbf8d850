import IdempotentTransformer.Storage

/-!
# IdempotentTransformer.Repositories

The repository functions of the server, as programs over storage calls.

A `Handler` is a program that may fail: `?` on an awaited call is the
monad's bind, which stops at the first error, and `tokio::join!` is
`Handler.join`, which runs both sides concurrently and hands both results
on, errors included.
-/

namespace IdempotentTransformer

open Library

/-- A storage call as a program. -/
def StorageCall.send (call : StorageCall) :
    Program StorageCall StorageCall.Reply String call.Reply := .lift call

/-! ## Handlers -/

/-- `async fn … -> Result<α, Box<dyn Error>>` over the storage. -/
structure Handler (α : Type) where
  program : Program StorageCall StorageCall.Reply String (Except HandlerError α)

namespace Handler

variable {α β : Type}

/-- Go on with a result, or stop with its error: `?`. -/
def andThen (f : α → Handler β) :
    Except HandlerError α → Program StorageCall StorageCall.Reply String (Except HandlerError β)
  | .ok a => (f a).program
  | .error e => .ret (.error e)

instance : Monad Handler where
  pure a := ⟨.ret (.ok a)⟩
  bind m f := ⟨m.program.bind (andThen f)⟩

/-- `Err(…)`. -/
def fail (error : HandlerError) : Handler α := ⟨.ret (.error error)⟩

/-- `result?` on a result already there. -/
def ofResult (result : Except HandlerError α) : Handler α := ⟨.ret result⟩

/-- Await a storage call; its error becomes the handler's. -/
def await
    (p : Program StorageCall StorageCall.Reply String (Except HiqliteError α)) : Handler α :=
  ⟨p.mapResult (Except.mapError .hiqlite)⟩

/-- A call that cannot fail. -/
def read (p : Program StorageCall StorageCall.Reply String α) : Handler α := ⟨p.mapResult .ok⟩

/-- `tokio::join!`. -/
def join (a : Handler α) (b : Handler β) :
    Handler (Except HandlerError α × Except HandlerError β) :=
  ⟨(Program.join a.program b.program).mapResult .ok⟩

/-- `client.lock(key).await?`; the guard it returns is given back by
`dropGuard`. -/
def lock (key : String) : Handler Unit :=
  ⟨.acquire key fun taken => .ret (if taken then .ok () else .error (.hiqlite .failed))⟩

/-- A lock guard goes out of scope. -/
def dropGuard (key : String) : Handler Unit := ⟨.release key (.ret (.ok ()))⟩

end Handler

/-- `return_error_if_true`. -/
def returnErrorIfTrue (condition : Bool) (status : HandlerError) : Handler Unit :=
  if condition then Handler.fail status else pure ()

/-- `Utc::now().timestamp_millis()`. -/
def utcNow : Handler Int := .read StorageCall.utcNow.send

/-- `Uuid::new_v4().to_string()`. -/
def newV4 : Handler String := .read StorageCall.newV4.send

/-- `client.is_leader_db().await`. -/
def isLeaderDb : Handler Bool := .read StorageCall.isLeaderDb.send

/-! ## checkpoints -/

def getCheckpoint (workflowId : String) (position : Int) : Handler (Option CheckpointValue) :=
  .await (StorageCall.selectCheckpoint workflowId position).send

def createCheckpoint (workflowId : String) (value : Option Bytes) (position : Int)
    (idempotencyKey : String) : Handler Unit := do
  let createdAt ← utcNow
  .await (StorageCall.insertCheckpoint workflowId position idempotencyKey value createdAt).send

def deleteExpiredCheckpoints (currentTimestamp status : Int) : Handler Unit :=
  .await (StorageCall.deleteCheckpoints currentTimestamp status).send

/-! ## lease_checkpoint -/

/-- `format!("{}:{}", workflow_id, position)`. -/
def generateLeasedCheckpointKey (workflowId : String) (position : Int) : String :=
  s!"{workflowId}:{position}"

def minimumCacheTtl : Int := 30

/-- The time to live a lease is cached with: `/` on `i64` truncates. -/
def cacheTtl (leaseTimeout : Int) : Int := max (leaseTimeout.tdiv 1000) minimumCacheTtl

def leaseCheckpoint (workflowId : String) (position leaseTimeout : Int) :
    Handler LeasedCheckpointValue := do
  let createdAt ← utcNow
  let key := generateLeasedCheckpointKey workflowId position
  Handler.await
    (StorageCall.cachePut key { leaseTimeout := leaseTimeout, createdAt := createdAt }
    (cacheTtl leaseTimeout)).send
  return { leaseTimeout := leaseTimeout, createdAt := createdAt }

def removeLeasedCheckpoint (workflowId : String) (position : Int) :
    Handler (Option LeasedCheckpointValue) := do
  let key := generateLeasedCheckpointKey workflowId position
  let result ← Handler.await (StorageCall.cacheGet key).send
  Handler.await (StorageCall.cacheDelete key).send
  return result

def getLeasedCheckpoint (workflowId : String) (position : Int) :
    Handler (Option LeasedCheckpointValue) :=
  let key := generateLeasedCheckpointKey workflowId position
  .await (StorageCall.cacheGet key).send

/-! ## workflows -/

def createOrGetWorkflow (workflowId : String) (status : WorkflowStatus) (name : Option String) :
    Handler Workflow := do
  let createdAt ← utcNow
  .await (StorageCall.insertWorkflow workflowId status.toInt createdAt name).send

def getWorkflow (workflowId : String) : Handler (Option Workflow) :=
  .await (StorageCall.selectWorkflow workflowId).send

def deleteExpiredWorkflows (currentTimestamp status : Int) : Handler Unit :=
  .await (StorageCall.deleteWorkflows currentTimestamp status).send

/-! ## workflows_fencing_tokens -/

def getWorkflowFencingToken (workflowId : String) : Handler (Option Int) :=
  .await (StorageCall.selectFencingToken workflowId).send

def incrementWorkflowFencingToken (workflowId : String) (fencingToken : Int) : Handler Int :=
  .await (StorageCall.insertFencingToken workflowId fencingToken).send

def deleteExpiredWorkflowFencingTokens (currentTimestamp status : Int) : Handler Unit :=
  .await (StorageCall.deleteFencingTokens currentTimestamp status).send

end IdempotentTransformer
