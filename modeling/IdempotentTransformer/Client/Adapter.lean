import IdempotentTransformer.Schema

/-!
# IdempotentTransformer.Client.Adapter

What passes between the client and the server: the calls of
`IdempotentRpcAdapter`, the requests `GrpcAdapter` makes of them, the status
`rpc_server` answers a failed handler with, and what `GrpcAdapter` hands
back.

A JavaScript `number` that travels as an `int64` is an `Int`.  The generated
protobuf classes are not part of the repository; of them only the setter of
a `bytes` field is a parameter (`Wire`).
-/

namespace IdempotentTransformer

/-- `TSerialized`: textual or binary. -/
inductive TSerialized
  | text (text : String)
  | bytes (bytes : Bytes)
deriving DecidableEq, Repr

/-- As a condition: an empty string counts as false, bytes never do. -/
def TSerialized.truthy : TSerialized → Bool
  | .text s => s != ""
  | .bytes _ => true

/-- What client code throws: an `Error`, a `WorkflowAbortedException` (an
`Error` too), or some other value. -/
inductive Thrown
  | error (message : String)
  | workflowAborted (message : String)
  | value (text : String)
deriving DecidableEq, Repr

/-- `err.message` where `err instanceof Error`. -/
def Thrown.message? : Thrown → Option String
  | .error message => some message
  | .workflowAborted message => some message
  | .value _ => none

inductive ErrCodes
  | FencingTokenExpired
  | FencingTokenNotFound
  | NonDeterministicCheckpointFound
deriving DecidableEq, Repr

def ErrCodes.text : ErrCodes → String
  | .FencingTokenExpired => "fencing_token_expired"
  | .FencingTokenNotFound => "fencing_token_not_found"
  | .NonDeterministicCheckpointFound => "non_deterministic_checkpoint_found"

/-! ## IdempotentRpcAdapter -/

/-- A call of the RPC adapter, with the input the core gives it. -/
inductive AdapterCall
  | startWorkflow (workflowId : String) (name : Option String)
  | checkpoint (workflowId : String) (value : TSerialized) (fencingToken position : Int)
      (idempotencyKey : String)
  | leaseCheckpoint (workflowId : String) (fencingToken leaseTimeout position : Int)
      (idempotencyKey : String)
  | completeWorkflow (workflowId : String) (fencingToken expireAfter : Int)
  | getWorkflowStatus (workflowId : String)
  | releaseLeaseCheckpoint (workflowId : String) (position : Int)
  | generateIdempotencyKey (workflowId : String) (fencingToken position : Int)
deriving DecidableEq, Repr

/-- What a call of the RPC adapter resolves to. -/
inductive AdapterReply
  | startWorkflow (fencingToken : Int)
  | checkpoint (abort : Bool)
  | leaseCheckpoint (value : Option TSerialized) (remainingLeaseTimeout : Option Int)
  | completeWorkflow
  | getWorkflowStatus (id : String) (status expireAt completedAt : Int)
  | releaseLeaseCheckpoint
  | generateIdempotencyKey (idempotencyKey : String)
deriving DecidableEq, Repr

/-! ## Statuses -/

/-- The gRPC codes the server answers with. -/
inductive Code
  | notFound
  | aborted
  | internal
deriving DecidableEq, Repr

structure Status where
  code : Code
  message : String
deriving DecidableEq, Repr

/-- `to_status`. -/
def toStatus : HandlerError → Status
  | .io .Interrupted message => { code := .aborted, message := message }
  | .io .InvalidData message => { code := .aborted, message := message }
  | .io .InvalidInput message => { code := .aborted, message := message }
  | .io .Other message => { code := .internal, message := message }
  | .io .NotFound message => { code := .internal, message := message }
  | .hiqlite _ => { code := .internal, message := "Something went wrong." }

/-- What `rpc_server` answers: the handler's response, but a status for a
workflow it did not find. -/
def rpcResponse : Except HandlerError Response → Except Status Response
  | .ok (.workflowStatus none) => .error { code := .notFound, message := "workflow_not_found" }
  | .ok response => .ok response
  | .error error => .error (toStatus error)

/-- An error of the gRPC client: the details it was answered with (empty
where the call got no status), and the message it shows. -/
structure ServiceError where
  details : String
  message : String
deriving DecidableEq, Repr

/-- The number and the name the gRPC client shows a code by. -/
def Code.text : Code → String
  | .notFound => "5 NOT_FOUND"
  | .aborted => "10 ABORTED"
  | .internal => "13 INTERNAL"

def Status.serviceError (status : Status) : ServiceError :=
  { details := status.message, message := status.code.text ++ ": " ++ status.message }

/-! ## GrpcAdapter -/

/-- What a `bytes` field set from a string sends.  The string is taken to be
base64: of any other the setter throws, and the call rejects with nothing sent,
as if its request were never handled. -/
structure Wire where
  ofText : String → Bytes

/-- A string set in a `bytes` field sends nothing. -/
def silentWire : Wire := { ofText := fun _ => [] }

namespace GrpcAdapter

def handleError (err : ServiceError) : Thrown :=
  if err.details ≠ "" then .error err.details else .error err.message

/-- `request.setValue(input.value as string)`. -/
def setValue (wire : Wire) : TSerialized → Bytes
  | .text text => wire.ofText text
  | .bytes bytes => bytes

/-- The request a call sends.  An empty name is not set. -/
def request (wire : Wire) : AdapterCall → Request
  | .startWorkflow workflowId name =>
      .workflowStart { workflowId := workflowId, name := name.filter (· ≠ "") }
  | .checkpoint workflowId value fencingToken position idempotencyKey =>
      .checkpoint
        { workflowId := workflowId, fencingToken := fencingToken, position := position,
          value := setValue wire value, idempotencyKey := idempotencyKey }
  | .leaseCheckpoint workflowId fencingToken leaseTimeout position idempotencyKey =>
      .leaseCheckpoint
        { workflowId := workflowId, fencingToken := fencingToken, position := position,
          leaseTimeout := leaseTimeout, idempotencyKey := idempotencyKey }
  | .completeWorkflow workflowId fencingToken expireAfter =>
      .completeWorkflow
        { workflowId := workflowId, fencingToken := fencingToken, expireAfter := expireAfter }
  | .getWorkflowStatus workflowId => .workflowStatus workflowId
  | .releaseLeaseCheckpoint workflowId position =>
      .releaseCheckpoint { workflowId := workflowId, position := position }
  | .generateIdempotencyKey workflowId fencingToken position =>
      .generateIdempotencyKey
        { workflowId := workflowId, fencingToken := fencingToken, position := position }

/-- `response.getValue()`: an unset `bytes` field reads as an empty string,
and `response.getRemainingLeaseTimeout()`, unset, as zero. -/
def leaseReply (output : LeaseCheckpointOutput) : AdapterReply :=
  match output.response with
  | some (.CheckpointValue value) => .leaseCheckpoint (some (.bytes value)) (some 0)
  | some (.RemainingLeaseTimeout remaining) =>
      .leaseCheckpoint (some (.text "")) (some remaining)
  | none => .leaseCheckpoint (some (.text "")) (some 0)

/-- What a call resolves to; cleanup is no call, and the server answers no
status request without a row. -/
def reply : Response → Option AdapterReply
  | .workflowStart data => some (.startWorkflow data.fencingToken)
  | .checkpoint data => some (.checkpoint data.abort)
  | .leaseCheckpoint data => some (leaseReply data)
  | .completeWorkflow => some .completeWorkflow
  | .workflowStatus workflow => workflow.map fun row =>
      .getWorkflowStatus row.id row.status (row.expireAt.getD 0) (row.completedAt.getD 0)
  | .releaseCheckpoint => some .releaseLeaseCheckpoint
  | .generateIdempotencyKey data => some (.generateIdempotencyKey data.idempotencyKey)
  | .cleanUp => none

/-- How a call settles once its request is handled: it resolves or rejects. -/
def settle (result : Except HandlerError Response) : Option (Except Thrown AdapterReply) :=
  match rpcResponse result with
  | .ok response => (reply response).map .ok
  | .error status => some (.error (handleError status.serviceError))

/-- A lease call resolves only on the reply to a lease request. -/
theorem settle_lease {result : Except HandlerError Response} {value : Option TSerialized}
    {remaining : Option Int}
    (h : settle result = some (.ok (.leaseCheckpoint value remaining))) :
    ∃ output, result = .ok (.leaseCheckpoint output) ∧
      leaseReply output = .leaseCheckpoint value remaining := by
  cases result with
  | error err => simp [settle, rpcResponse] at h
  | ok response =>
      cases response with
      | leaseCheckpoint output =>
          exact ⟨output, rfl, by simpa [settle, rpcResponse, reply] using h⟩
      | workflowStatus workflow =>
          cases workflow <;> simp [settle, rpcResponse, reply] at h
      | _ => simp [settle, rpcResponse, reply] at h

/-- A checkpoint call resolves only on the reply to a checkpoint request. -/
theorem settle_checkpoint {result : Except HandlerError Response} {abort : Bool}
    (h : settle result = some (.ok (.checkpoint abort))) :
    result = .ok (.checkpoint { abort := abort }) := by
  cases result with
  | error err => simp [settle, rpcResponse] at h
  | ok response =>
      cases response with
      | checkpoint output =>
          have habort : output.abort = abort := by simpa [settle, rpcResponse, reply] using h
          rw [← habort]
      | leaseCheckpoint output =>
          cases hresponse : output.response with
          | none => simp [settle, rpcResponse, reply, leaseReply, hresponse] at h
          | some response =>
              cases response <;> simp [settle, rpcResponse, reply, leaseReply, hresponse] at h
      | workflowStatus workflow =>
          cases workflow <;> simp [settle, rpcResponse, reply] at h
      | _ => simp [settle, rpcResponse, reply] at h

/-- A value a lease call resolves to is one the server sent, as bytes. -/
theorem leaseReply_value {output : LeaseCheckpointOutput} {value : Option TSerialized}
    {remaining : Option Int} {v : TSerialized}
    (h : leaseReply output = .leaseCheckpoint value remaining)
    (hv : value.filter TSerialized.truthy = some v) :
    ∃ bytes, output.response = some (.CheckpointValue bytes) ∧ v = .bytes bytes := by
  unfold leaseReply at h
  split at h
  · next bytes hresponse =>
      cases h
      exact ⟨bytes, hresponse, (Option.some.inj hv).symm⟩
  · cases h
    contradiction
  · cases h
    contradiction

/-- A lease call resolves to neither a value nor a remaining timeout when the
lease was granted, or the timeout sent is zero. -/
theorem leaseReply_granted {output : LeaseCheckpointOutput} {value : Option TSerialized}
    {remaining : Option Int} (h : leaseReply output = .leaseCheckpoint value remaining)
    (hv : value.filter TSerialized.truthy = none) (hr : remaining.filter (· ≠ 0) = none) :
    output.response = none ∨ output.response = some (.RemainingLeaseTimeout 0) := by
  unfold leaseReply at h
  split at h
  · cases h
    contradiction
  · next n hresponse =>
      cases h
      right
      have hzero : n = 0 := by simpa using hr
      rw [hresponse, hzero]
  · next hresponse => exact .inl hresponse

end GrpcAdapter

end IdempotentTransformer
