import Mathlib.Algebra.Group.Int.Defs
import Mathlib.Algebra.Group.Nat.Defs
import Mathlib.Logic.Function.Basic

/-!
# IdempotentTransformer.Schema

The data of the server: the rows of its three tables, the lease kept in
the cache, the errors its handlers return, and the requests and responses
of its RPC interface.

`i64` columns and fields are `Int`.  The two places where the width of an
`i64` decides something — the saturating lease arithmetic and the wrapping
sum of the retention time — name it explicitly (`saturatingAdd`,
`saturatingSub`, `wrappingAdd`).
-/

namespace IdempotentTransformer

/-- `Vec<u8>`. -/
abbrev Bytes := List UInt8

/-! ## i64 arithmetic -/

/-- `i64::MIN`. -/
def i64Min : Int := -2 ^ 63

/-- `i64::MAX`. -/
def i64Max : Int := 2 ^ 63 - 1

/-- The nearest `i64`. -/
def clampI64 (n : Int) : Int := max i64Min (min i64Max n)

/-- `i64::saturating_add`. -/
def saturatingAdd (a b : Int) : Int := clampI64 (a + b)

/-- `i64::saturating_sub`. -/
def saturatingSub (a b : Int) : Int := clampI64 (a - b)

/-- `+` on `i64` as the release profile builds it: modulo `2 ^ 64`. -/
def wrappingAdd (a b : Int) : Int := (a + b).bmod (2 ^ 64)

/-! ## Rows -/

inductive WorkflowStatus
  | Running
  | Completed
deriving DecidableEq, Repr

/-- `status as i64`. -/
def WorkflowStatus.toInt : WorkflowStatus → Int
  | .Running => 0
  | .Completed => 1

/-- A row of `Workflows`. -/
structure Workflow where
  id : String
  status : Int
  expireAt : Option Int
  completedAt : Option Int
  name : Option String
  createdAt : Int
deriving DecidableEq, Repr

/-- A row of `Checkpoints`; its workflow id and position are the key it is
stored under. -/
structure Checkpoint where
  idempotencyKey : String
  value : Option Bytes
  createdAt : Int
deriving DecidableEq, Repr

/-- The columns of a checkpoint the queries select. -/
structure CheckpointValue where
  position : Int
  idempotencyKey : String
  value : Option Bytes
deriving DecidableEq, Repr

/-- What the cache holds for a leased position. -/
structure LeasedCheckpointValue where
  leaseTimeout : Int
  createdAt : Int
deriving DecidableEq, Repr

/-! ## Errors -/

/-- The kinds of `std::io::ErrorKind` the server uses. -/
inductive ErrorKind
  | NotFound
  | InvalidData
  | InvalidInput
  | Interrupted
  | Other
deriving DecidableEq, Repr

/-- An error of a storage call. -/
inductive HiqliteError
  | failed
deriving DecidableEq, Repr

/-- `Box<dyn Error>` of the handlers: one of their own `io::Error`s, or what
a storage call returned. -/
inductive HandlerError
  | io (kind : ErrorKind) (message : String)
  | hiqlite (error : HiqliteError)
deriving DecidableEq, Repr

/-! ## Requests and responses -/

structure CreateWorkflowInput where
  workflowId : String
  name : Option String
deriving DecidableEq, Repr

structure CreateWorkflowOutput where
  fencingToken : Int
deriving DecidableEq, Repr

structure FinishWorkflowInput where
  workflowId : String
  fencingToken : Int
  expireAfter : Int
deriving DecidableEq, Repr

structure CheckpointInput where
  workflowId : String
  fencingToken : Int
  position : Int
  value : Bytes
  idempotencyKey : String
deriving DecidableEq, Repr

structure CheckpointOutput where
  abort : Bool
deriving DecidableEq, Repr

structure LeaseCheckpointInput where
  workflowId : String
  fencingToken : Int
  position : Int
  leaseTimeout : Int
  idempotencyKey : String
deriving DecidableEq, Repr

inductive LeaseCheckpointReturnType
  | CheckpointValue (value : Bytes)
  | RemainingLeaseTimeout (remaining : Int)
deriving DecidableEq, Repr

/-- `response = none` grants the lease. -/
structure LeaseCheckpointOutput where
  response : Option LeaseCheckpointReturnType
deriving DecidableEq, Repr

structure ReleaseCheckpointInput where
  workflowId : String
  position : Int
deriving DecidableEq, Repr

structure CreateDurableIdempotencyKeyInput where
  workflowId : String
  fencingToken : Int
  position : Int
deriving DecidableEq, Repr

structure CreateDurableIdempotencyKeyOutput where
  idempotencyKey : String
deriving DecidableEq, Repr

/-- What reaches the server: the seven RPCs, and the cron job. -/
inductive Request
  | workflowStart (data : CreateWorkflowInput)
  | checkpoint (data : CheckpointInput)
  | leaseCheckpoint (data : LeaseCheckpointInput)
  | completeWorkflow (data : FinishWorkflowInput)
  | workflowStatus (workflowId : String)
  | releaseCheckpoint (data : ReleaseCheckpointInput)
  | generateIdempotencyKey (data : CreateDurableIdempotencyKeyInput)
  | cleanUp
deriving DecidableEq, Repr

/-- What a handler returns when it does not fail. -/
inductive Response
  | workflowStart (data : CreateWorkflowOutput)
  | checkpoint (data : CheckpointOutput)
  | leaseCheckpoint (data : LeaseCheckpointOutput)
  | completeWorkflow
  | workflowStatus (workflow : Option Workflow)
  | releaseCheckpoint
  | generateIdempotencyKey (data : CreateDurableIdempotencyKeyOutput)
  | cleanUp
deriving DecidableEq, Repr

end IdempotentTransformer
