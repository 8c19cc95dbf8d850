import IdempotentTransformer.Client.Adapter

/-!
# IdempotentTransformer.Client.Execute

One `execute` call of `IdempotentTransformer`, as a machine that runs from
one `await` to the next.

A `Phase` is the `await` the call is at, with the local variables still
needed; an `Input` is what that `await` comes back with (and what
`Date.now()` shows where it is read next); `ExecuteCall.resume` runs the code up
to the next `await` and names the adapter call made on the way.  All
`execute` calls of a runner share its `position`, so a turn takes the runner
and gives it back.
-/

namespace IdempotentTransformer

/-- `n || fallback`. -/
def orElse (n : Option Int) (fallback : Int) : Int :=
  match n with
  | some n => if n = 0 then fallback else n
  | none => fallback

/-- `onAbort`, less its function: what that does is an input. -/
structure OnAbort where
  retryCount : Option Int
  retryDelay : Option Int
deriving DecidableEq, Repr

/-- `IIdempotentTaskOptions`. -/
structure TaskOptions where
  leaseTimeout : Option Int
  onAbort : Option OnAbort
deriving DecidableEq, Repr

/-- `taskOptions?.leaseTimeout || 1000 * 30`. -/
def TaskOptions.leaseMilliseconds (options : TaskOptions) : Int :=
  orElse options.leaseTimeout (1000 * 30)

/-- `taskOptions.onAbort.retryCount || 3`. -/
def OnAbort.count (onAbort : OnAbort) : Int := orElse onAbort.retryCount 3

def OnAbort.delay (onAbort : OnAbort) : Int := onAbort.retryDelay.getD 1000

/-- The variables of a `startWorkflow` call that its runner's methods share. -/
structure Runner where
  workflowId : String
  fencingToken : Int
  completedRetentionTime : Option Int
  position : Int
deriving DecidableEq, Repr

namespace Runner

/-- The runner `startWorkflow` returns. -/
def start (workflowId : String) (completedRetentionTime : Option Int) (fencingToken : Int) :
    Runner :=
  { workflowId := workflowId, fencingToken := fencingToken,
    completedRetentionTime := completedRetentionTime, position := 0 }

/-- `position++`. -/
def advance (r : Runner) : Runner := { r with position := r.position + 1 }

/-- The call `complete` makes. -/
def complete (r : Runner) : AdapterCall :=
  .completeWorkflow r.workflowId r.fencingToken
    (orElse r.completedRetentionTime (1000 * 60 * 60 * 24))

/-- The call `generateIdempotencyKey` makes. -/
def generateIdempotencyKey (r : Runner) : AdapterCall :=
  .generateIdempotencyKey r.workflowId r.fencingToken r.position

end Runner

/-- The arguments of an `execute` call, less the task: what that does is an
input. -/
structure ExecuteCall where
  idempotencyKey : String
  options : TaskOptions
deriving DecidableEq, Repr

/-- Where an `execute` call stands. -/
inductive Phase (V : Type)
  /-- `await rpcAdapter.leaseCheckpoint` -/
  | leasing (errorCount : Nat)
  /-- `await waitFor`, before it asks for the lease again -/
  | waiting (milliseconds : Rat) (errorCount : Nat)
  /-- `await serializer.deserialize` -/
  | deserializing (value : TSerialized) (errorCount : Nat)
  /-- the task -/
  | running (beforeExecution : Int)
  /-- `await rpcAdapter.releaseLeaseCheckpoint` -/
  | releasing (err : Thrown)
  /-- `await serializer.serialize` -/
  | serializing (beforeExecution : Int) (taskResult : V)
  /-- `await rpcAdapter.checkpoint` -/
  | checkpointing (leaseExpiry : Int) (taskResult : V) (serializedResult : TSerialized)
  /-- `onAbort.function`, called for the `i`-th time from zero -/
  | rollingBack (taskResult : V) (i : Int)
  /-- `await waitFor`, after `onAbort.function` failed -/
  | delaying (milliseconds : Int) (taskResult : V) (i : Int)
  | returned (value : V)
  | thrown (err : Thrown)
deriving DecidableEq, Repr

/-- The call has settled. -/
def Phase.settled {V : Type} : Phase V → Bool
  | .returned _ | .thrown _ => true
  | _ => false

/-- The task has not ended yet. -/
def Phase.early {V : Type} : Phase V → Bool
  | .leasing _ | .waiting _ _ | .deserializing _ _ | .running _ => true
  | _ => false

/-- The `await` is for an adapter call. -/
def Phase.calling {V : Type} : Phase V → Bool
  | .leasing _ | .releasing _ | .checkpointing .. => true
  | _ => false

/-- `onAbort.function` has been called. -/
def Phase.compensating {V : Type} : Phase V → Bool
  | .rollingBack .. | .delaying .. => true
  | _ => false

/-- How the task ended, where the call still goes on from that. -/
def Phase.taskResult? {V : Type} : Phase V → Option (Except Thrown V)
  | .releasing err => some (.error err)
  | .serializing _ taskResult => some (.ok taskResult)
  | .checkpointing _ taskResult _ => some (.ok taskResult)
  | .rollingBack taskResult _ => some (.ok taskResult)
  | .delaying _ taskResult _ => some (.ok taskResult)
  | _ => none

/-- What an `await` comes back with. -/
inductive Input (V : Type)
  /-- An adapter call settles; `now` is what `Date.now()` shows then. -/
  | reply (result : Except Thrown AdapterReply) (now : Int)
  /-- The timer of `waitFor` fires. -/
  | wake
  | deserialized (result : Except Thrown V)
  /-- The task throws before it returns. -/
  | taskThrew (err : Thrown)
  /-- The task returns, or its promise settles. -/
  | taskSettled (result : Except Thrown V)
  | serialized (result : Except Thrown TSerialized) (now : Int)
  /-- `onAbort.function` returns, throws, or its promise settles. -/
  | rolledBack (result : Except Thrown Unit)

/-- The outcome of running up to the next `await`. -/
structure Turn (V : Type) where
  runner : Runner
  phase : Phase V
  call : Option AdapterCall
deriving DecidableEq, Repr

namespace ExecuteCall

variable {V : Type} (c : ExecuteCall) (r : Runner)

/-- The top of the lease loop. -/
def lease (errorCount : Nat) : Turn V :=
  { runner := r
    phase := .leasing errorCount
    call := some (.leaseCheckpoint r.workflowId r.fencingToken c.options.leaseMilliseconds
      r.position c.idempotencyKey) }

/-- The `catch` of the lease loop. -/
def leaseFailed (errorCount : Nat) (err : Thrown) : Turn V :=
  -- The workflow might not have been replicated yet, so try one more time.
  if err.message? = some ErrCodes.FencingTokenNotFound.text ∧ r.position = 0 ∧
    errorCount < 1 then
    { runner := r, phase := .waiting 100 (errorCount + 1), call := none }
  else
    { runner := r, phase := .thrown err, call := none }

/-- A lease reply: a value, a lease of somebody else, or the lease. -/
def leaseReplied (errorCount : Nat) (value : Option TSerialized)
    (remainingLeaseTimeout : Option Int) (now : Int) : Turn V :=
  match value.filter TSerialized.truthy with
  | some value => { runner := r, phase := .deserializing value errorCount, call := none }
  | none =>
    match remainingLeaseTimeout.filter (· ≠ 0) with
    | some remaining =>
        { runner := r, phase := .waiting (remaining / 10) errorCount, call := none }
    | none => { runner := r, phase := .running now, call := none }

/-- `onAbort.function` is called while `i < retryCount`. -/
def rollback (onAbort : OnAbort) (taskResult : V) (i : Int) : Turn V :=
  if i < onAbort.count then
    { runner := r, phase := .rollingBack taskResult i, call := none }
  else
    { runner := r
      phase := .thrown (.workflowAborted "Workflow task rolled back and aborted.")
      call := none }

/-- What follows the checkpoint loop. -/
def afterCheckpoint (taskResult : V) (abort : Option Bool) : Turn V :=
  if abort = some true then
    { runner := r
      phase := .thrown (.workflowAborted "Workflow task persisted but aborted by other worker.")
      call := none }
  else
    match abort, c.options.onAbort with
    | none, some onAbort => rollback r onAbort taskResult 0
    | _, _ => { runner := r.advance, phase := .returned taskResult, call := none }

/-- The head of the checkpoint loop, `while (Date.now() < leaseExpiry)`. -/
def checkpointLoop (leaseExpiry : Int) (taskResult : V) (serializedResult : TSerialized)
    (now : Int) : Turn V :=
  if now < leaseExpiry then
    { runner := r
      phase := .checkpointing leaseExpiry taskResult serializedResult
      call := some (.checkpoint r.workflowId serializedResult r.fencingToken r.position
        c.idempotencyKey) }
  else
    afterCheckpoint c r taskResult none

/-- The task's promise rejects: the lease is released before the error goes on. -/
def release (err : Thrown) : Turn V :=
  { runner := r
    phase := .releasing err
    call := some (.releaseLeaseCheckpoint r.workflowId r.position) }

/-- `execute` up to its first `await`. -/
def begin : Turn V := lease c r 0

/-- One turn of the call, from the `await` it is at to the next. -/
def resume : Phase V → Input V → Option (Turn V)
  | .leasing errorCount, .reply (.ok (.leaseCheckpoint value remaining)) now =>
      some (leaseReplied r errorCount value remaining now)
  | .leasing errorCount, .reply (.error err) _ => some (leaseFailed r errorCount err)
  | .waiting _ errorCount, .wake => some (lease c r errorCount)
  | .deserializing _ _, .deserialized (.ok value) =>
      some { runner := r.advance, phase := .returned value, call := none }
  | .deserializing _ errorCount, .deserialized (.error err) =>
      some (leaseFailed r errorCount err)
  -- `task()` stands outside the `try`: its own throw releases nothing.
  | .running _, .taskThrew err => some { runner := r, phase := .thrown err, call := none }
  | .running beforeExecution, .taskSettled (.ok taskResult) =>
      some { runner := r, phase := .serializing beforeExecution taskResult, call := none }
  | .running _, .taskSettled (.error err) => some (release r err)
  | .releasing err, .reply (.ok .releaseLeaseCheckpoint) _ =>
      some { runner := r, phase := .thrown err, call := none }
  | .releasing _, .reply (.error err) _ =>
      some { runner := r, phase := .thrown err, call := none }
  | .serializing beforeExecution taskResult, .serialized (.ok serializedResult) now =>
      some (checkpointLoop c r (beforeExecution + c.options.leaseMilliseconds) taskResult
        serializedResult now)
  | .serializing _ _, .serialized (.error err) _ =>
      some { runner := r, phase := .thrown err, call := none }
  | .checkpointing _ taskResult _, .reply (.ok (.checkpoint abort)) _ =>
      some (afterCheckpoint c r taskResult (some abort))
  | .checkpointing leaseExpiry taskResult serializedResult, .reply (.error _) now =>
      some (checkpointLoop c r leaseExpiry taskResult serializedResult now)
  | .rollingBack _ _, .rolledBack (.ok ()) =>
      some
        { runner := r
          phase := .thrown (.workflowAborted "Workflow task rolled back and aborted.")
          call := none }
  | .rollingBack taskResult i, .rolledBack (.error _) =>
      c.options.onAbort.map fun onAbort =>
        { runner := r, phase := .delaying onAbort.delay taskResult i, call := none }
  | .delaying _ taskResult i, .wake =>
      c.options.onAbort.map fun onAbort => rollback r onAbort taskResult (i + 1)
  | _, _ => none

/-! ## What a turn does -/

/-- The turns of a call, sorted by what they do. -/
inductive Advances : Phase V → Input V → Turn V → Prop
  | asks {milliseconds : Rat} {k : Nat} : Advances (.waiting milliseconds k) .wake (lease c r k)
  | polls {k : Nat} {value : Option TSerialized} {remaining : Option Int} {now n : Int}
      (hv : value.filter TSerialized.truthy = none) (hr : remaining.filter (· ≠ 0) = some n) :
      Advances (.leasing k) (.reply (.ok (.leaseCheckpoint value remaining)) now)
        { runner := r, phase := .waiting (n / 10) k, call := none }
  | finds {k : Nat} {value : Option TSerialized} {remaining : Option Int} {now : Int}
      {v : TSerialized} (hv : value.filter TSerialized.truthy = some v) :
      Advances (.leasing k) (.reply (.ok (.leaseCheckpoint value remaining)) now)
        { runner := r, phase := .deserializing v k, call := none }
  | granted {k : Nat} {value : Option TSerialized} {remaining : Option Int} {now : Int}
      (hv : value.filter TSerialized.truthy = none) (hr : remaining.filter (· ≠ 0) = none) :
      Advances (.leasing k) (.reply (.ok (.leaseCheckpoint value remaining)) now)
        { runner := r, phase := .running now, call := none }
  | retries {phase : Phase V} {input : Input V} {k : Nat}
      (hp : phase = .leasing k ∨ ∃ value, phase = .deserializing value k) :
      Advances phase input { runner := r, phase := .waiting 100 (k + 1), call := none }
  | returnsValue {value : TSerialized} {k : Nat} {v : V} :
      Advances (.deserializing value k) (.deserialized (.ok v))
        { runner := r.advance, phase := .returned v, call := none }
  | completes {beforeExecution : Int} {v : V} :
      Advances (.running beforeExecution) (.taskSettled (.ok v))
        { runner := r, phase := .serializing beforeExecution v, call := none }
  | rejects {beforeExecution : Int} {err : Thrown} :
      Advances (.running beforeExecution) (.taskSettled (.error err)) (release r err)
  | checkpoints {phase : Phase V} {input : Input V} {leaseExpiry : Int} {v : V}
      {value : TSerialized}
      (hp : (∃ beforeExecution now, phase = .serializing beforeExecution v ∧
          input = .serialized (.ok value) now) ∨
        phase = .checkpointing leaseExpiry v value) :
      Advances phase input
        { runner := r, phase := .checkpointing leaseExpiry v value
          call := some (.checkpoint r.workflowId value r.fencingToken r.position
            c.idempotencyKey) }
  | returnsResult {phase : Phase V} {input : Input V} {v : V}
      (hp : phase.taskResult? = some (.ok v)) :
      Advances phase input { runner := r.advance, phase := .returned v, call := none }
  | compensates {phase phase' : Phase V} {input : Input V} {v : V}
      (hp : phase.taskResult? = some (.ok v))
      (hp' : (∃ i, phase' = .rollingBack v i) ∨
        ∃ milliseconds i, phase' = .delaying milliseconds v i) :
      Advances phase input { runner := r, phase := phase', call := none }
  | throws {phase : Phase V} {input : Input V} {err : Thrown} (hp : phase.settled = false)
      (hi : ∀ beforeExecution result, phase = .running beforeExecution →
        input ≠ .taskSettled result) :
      Advances phase input { runner := r, phase := .thrown err, call := none }

variable {c r}

private theorem advances_leaseFailed {phase : Phase V} {k : Nat} {err : Thrown}
    (input : Input V) (hp : phase = .leasing k ∨ ∃ value, phase = .deserializing value k) :
    Advances c r phase input (leaseFailed r k err) := by
  unfold leaseFailed
  split
  · exact .retries hp
  · refine .throws ?_ ?_
    · rcases hp with rfl | ⟨value, rfl⟩ <;> rfl
    · intro beforeExecution result h
      rcases hp with rfl | ⟨value, rfl⟩ <;> contradiction

private theorem advances_rollback {phase : Phase V} {onAbort : OnAbort} {v : V} {i : Int}
    (input : Input V) (hp : phase.taskResult? = some (.ok v)) (hs : phase.settled = false) :
    Advances c r phase input (rollback r onAbort v i) := by
  unfold rollback
  split
  · exact .compensates hp (.inl ⟨i, rfl⟩)
  · refine .throws hs ?_
    intro beforeExecution result h
    rw [h] at hp
    contradiction

private theorem advances_afterCheckpoint {phase : Phase V} {v : V} {abort : Option Bool}
    (input : Input V) (hp : phase.taskResult? = some (.ok v)) (hs : phase.settled = false) :
    Advances c r phase input (afterCheckpoint c r v abort) := by
  unfold afterCheckpoint
  split
  · refine .throws hs ?_
    intro beforeExecution result h
    rw [h] at hp
    contradiction
  · split
    · exact advances_rollback input hp hs
    · exact .returnsResult hp

private theorem advances_checkpointLoop {phase : Phase V} {input : Input V}
    {leaseExpiry now : Int} {v : V} {value : TSerialized}
    (hp : (∃ beforeExecution now, phase = .serializing beforeExecution v ∧
        input = .serialized (.ok value) now) ∨ phase = .checkpointing leaseExpiry v value) :
    Advances c r phase input (checkpointLoop c r leaseExpiry v value now) := by
  unfold checkpointLoop
  split
  · exact .checkpoints hp
  · rcases hp with ⟨beforeExecution, now, rfl, rfl⟩ | rfl
    · exact advances_afterCheckpoint _ rfl rfl
    · exact advances_afterCheckpoint _ rfl rfl

/-- Every turn is one of these. -/
theorem resume_cases {phase : Phase V} {input : Input V} {turn : Turn V}
    (h : resume c r phase input = some turn) : Advances c r phase input turn := by
  unfold resume at h
  split at h
  case h_1 k value remaining now =>
    cases h
    unfold leaseReplied
    split
    · next v hv => exact .finds hv
    · next hv =>
        split
        · next n hr => exact .polls hv hr
        · next hr => exact .granted hv hr
  case h_2 k err now =>
    cases h
    exact advances_leaseFailed _ (.inl rfl)
  case h_3 =>
    cases h
    exact .asks
  case h_4 =>
    cases h
    exact .returnsValue
  case h_5 value k err =>
    cases h
    exact advances_leaseFailed _ (.inr ⟨value, rfl⟩)
  case h_6 =>
    cases h
    exact .throws rfl nofun
  case h_7 =>
    cases h
    exact .completes
  case h_8 =>
    cases h
    exact .rejects
  case h_9 =>
    cases h
    exact .throws rfl nofun
  case h_10 =>
    cases h
    exact .throws rfl nofun
  case h_11 beforeExecution v value now =>
    cases h
    exact advances_checkpointLoop (.inl ⟨beforeExecution, now, rfl, rfl⟩)
  case h_12 =>
    cases h
    exact .throws rfl nofun
  case h_13 =>
    cases h
    exact advances_afterCheckpoint _ rfl rfl
  case h_14 =>
    cases h
    exact advances_checkpointLoop (.inr rfl)
  case h_15 =>
    cases h
    exact .throws rfl nofun
  case h_16 =>
    rw [Option.map_eq_some_iff] at h
    obtain ⟨onAbort, -, rfl⟩ := h
    exact .compensates rfl (.inr ⟨_, _, rfl⟩)
  case h_17 =>
    rw [Option.map_eq_some_iff] at h
    obtain ⟨onAbort, -, rfl⟩ := h
    exact advances_rollback _ rfl rfl
  case h_18 => contradiction

namespace Advances

variable {phase : Phase V} {input : Input V} {turn : Turn V}

theorem not_settled (h : Advances c r phase input turn) : phase.settled = false := by
  cases h with
  | retries hp => rcases hp with rfl | ⟨value, rfl⟩ <;> rfl
  | checkpoints hp => rcases hp with ⟨_, _, rfl, -⟩ | rfl <;> rfl
  | returnsResult hp => cases phase <;> first | rfl | contradiction
  | compensates hp hp' => cases phase <;> first | rfl | contradiction
  | throws hp hi => exact hp
  | _ => rfl

/-- Only a return moves the runner, by one position. -/
theorem runner_eq (h : Advances c r phase input turn) :
    turn.runner = r ∨ turn.runner = r.advance ∧ ∃ v, turn.phase = .returned v := by
  cases h with
  | returnsValue => exact .inr ⟨rfl, _, rfl⟩
  | returnsResult hp => exact .inr ⟨rfl, _, rfl⟩
  | _ => exact .inl rfl

theorem workflowId_eq (h : Advances c r phase input turn) :
    turn.runner.workflowId = r.workflowId := by
  rcases h.runner_eq with hrunner | ⟨hrunner, -⟩
  · rw [hrunner]
  · rw [hrunner]
    rfl

/-- A return moves the runner. -/
theorem runner_of_returned (h : Advances c r phase input turn) {v : V}
    (ht : turn.phase = .returned v) : turn.runner = r.advance := by
  cases h with
  | returnsValue => rfl
  | returnsResult hp => rfl
  | compensates hp hp' =>
      rcases hp' with ⟨i, rfl⟩ | ⟨_, i, rfl⟩ <;> contradiction
  | _ => contradiction

/-- A turn that ends at an `await` for an adapter call makes one. -/
theorem call_isSome (h : Advances c r phase input turn) :
    turn.call.isSome = turn.phase.calling := by
  cases h with
  | compensates hp hp' => rcases hp' with ⟨i, rfl⟩ | ⟨_, i, rfl⟩ <;> rfl
  | _ => rfl

/-- What a turn sends, and where the call then stands. -/
theorem call_cases (h : Advances c r phase input turn) {call : AdapterCall}
    (hc : turn.call = some call) :
    (∃ k, turn.phase = .leasing k ∧ phase.early = true ∧
        call = .leaseCheckpoint r.workflowId r.fencingToken
          c.options.leaseMilliseconds r.position c.idempotencyKey) ∨
      (∃ leaseExpiry v value, turn.phase = .checkpointing leaseExpiry v value ∧
        phase.taskResult? = some (.ok v) ∧
        call = .checkpoint r.workflowId value r.fencingToken r.position c.idempotencyKey) ∨
      ∃ beforeExecution err, turn.phase = .releasing err ∧ phase = .running beforeExecution ∧
        input = .taskSettled (.error err) ∧
        call = .releaseLeaseCheckpoint r.workflowId r.position := by
  cases h with
  | asks => exact .inl ⟨_, rfl, rfl, (Option.some.inj hc).symm⟩
  | @checkpoints _ _ leaseExpiry v value hp =>
      refine .inr (.inl ⟨leaseExpiry, v, value, rfl, ?_, (Option.some.inj hc).symm⟩)
      rcases hp with ⟨_, _, rfl, -⟩ | rfl <;> rfl
  | rejects => exact .inr (.inr ⟨_, _, rfl, rfl, rfl, (Option.some.inj hc).symm⟩)
  | _ => contradiction

/-- A call before the end of its task was there already, and the task did not
end in this turn. -/
theorem early_of_early (h : Advances c r phase input turn) (he : turn.phase.early = true) :
    phase.early = true ∧
      ∀ beforeExecution result, phase = .running beforeExecution →
        input ≠ .taskSettled result := by
  cases h with
  | retries hp =>
      rcases hp with rfl | ⟨value, rfl⟩
      · exact ⟨rfl, nofun⟩
      · exact ⟨rfl, nofun⟩
  | asks => exact ⟨rfl, nofun⟩
  | polls hv hr => exact ⟨rfl, nofun⟩
  | finds hv => exact ⟨rfl, nofun⟩
  | granted hv hr => exact ⟨rfl, nofun⟩
  | compensates hp hp' =>
      rcases hp' with ⟨i, rfl⟩ | ⟨_, i, rfl⟩ <;> contradiction
  | _ => contradiction

/-- The result a call goes on from is the one its task ended with. -/
theorem taskResult_cases (h : Advances c r phase input turn) {result : Except Thrown V}
    (ht : turn.phase.taskResult? = some result) :
    phase.taskResult? = some result ∨
      ∃ beforeExecution, phase = .running beforeExecution ∧ input = .taskSettled result := by
  cases h with
  | completes =>
      cases ht
      exact .inr ⟨_, rfl, rfl⟩
  | rejects =>
      cases ht
      exact .inr ⟨_, rfl, rfl⟩
  | checkpoints hp =>
      cases ht
      rcases hp with ⟨_, _, rfl, -⟩ | rfl
      · exact .inl rfl
      · exact .inl rfl
  | compensates hp hp' =>
      rcases hp' with ⟨i, rfl⟩ | ⟨_, i, rfl⟩
      · exact .inl (hp.trans ht)
      · exact .inl (hp.trans ht)
  | _ => contradiction

/-- A call waits for a lease only after it asked for it again. -/
theorem leasing_cases (h : Advances c r phase input turn) {k : Nat}
    (ht : turn.phase = .leasing k) :
    turn = lease c r k ∧ phase.early = true := by
  cases h with
  | asks =>
      cases ht
      exact ⟨rfl, rfl⟩
  | compensates hp hp' =>
      rcases hp' with ⟨i, rfl⟩ | ⟨_, i, rfl⟩ <;> contradiction
  | _ => contradiction

/-- The task starts on a lease reply with neither a value nor a remaining
timeout. -/
theorem running_cases (h : Advances c r phase input turn) {beforeExecution : Int}
    (ht : turn.phase = .running beforeExecution) :
    ∃ k value remaining, phase = .leasing k ∧
      input = .reply (.ok (.leaseCheckpoint value remaining)) beforeExecution ∧
      value.filter TSerialized.truthy = none ∧ remaining.filter (· ≠ 0) = none := by
  cases h with
  | granted hv hr =>
      cases ht
      exact ⟨_, _, _, rfl, rfl, hv, hr⟩
  | compensates hp hp' =>
      rcases hp' with ⟨i, rfl⟩ | ⟨_, i, rfl⟩ <;> contradiction
  | _ => contradiction

/-- A value is deserialized that a lease reply carried. -/
theorem deserializing_cases (h : Advances c r phase input turn) {value : TSerialized} {k : Nat}
    (ht : turn.phase = .deserializing value k) :
    ∃ found remaining now, phase = .leasing k ∧
      input = .reply (.ok (.leaseCheckpoint found remaining)) now ∧
      found.filter TSerialized.truthy = some value := by
  cases h with
  | finds hv =>
      cases ht
      exact ⟨_, _, _, rfl, rfl, hv⟩
  | compensates hp hp' =>
      rcases hp' with ⟨i, rfl⟩ | ⟨_, i, rfl⟩ <;> contradiction
  | _ => contradiction

/-- A result is serialized that the task ended with. -/
theorem serializing_cases (h : Advances c r phase input turn) {beforeExecution : Int} {v : V}
    (ht : turn.phase = .serializing beforeExecution v) :
    phase = .running beforeExecution ∧ input = .taskSettled (.ok v) := by
  cases h with
  | completes =>
      cases ht
      exact ⟨rfl, rfl⟩
  | compensates hp hp' =>
      rcases hp' with ⟨i, rfl⟩ | ⟨_, i, rfl⟩ <;> contradiction
  | _ => contradiction

/-- The bytes of a checkpoint are what the serializer gave. -/
theorem checkpointing_cases (h : Advances c r phase input turn) {leaseExpiry : Int} {v : V}
    {value : TSerialized} (ht : turn.phase = .checkpointing leaseExpiry v value) :
    (∃ beforeExecution now, phase = .serializing beforeExecution v ∧
        input = .serialized (.ok value) now) ∨ phase = .checkpointing leaseExpiry v value := by
  cases h with
  | checkpoints hp =>
      cases ht
      exact hp
  | compensates hp hp' =>
      rcases hp' with ⟨i, rfl⟩ | ⟨_, i, rfl⟩ <;> contradiction
  | _ => contradiction

/-- A call returns what it deserialized, or the result of its task. -/
theorem returned_cases (h : Advances c r phase input turn) {v : V}
    (ht : turn.phase = .returned v) :
    (∃ value k, phase = .deserializing value k ∧ input = .deserialized (.ok v)) ∨
      phase.taskResult? = some (.ok v) := by
  cases h with
  | returnsValue =>
      cases ht
      exact .inl ⟨_, _, rfl, rfl⟩
  | returnsResult hp =>
      cases ht
      exact .inr hp
  | compensates hp hp' =>
      rcases hp' with ⟨i, rfl⟩ | ⟨_, i, rfl⟩ <;> contradiction
  | _ => contradiction

end Advances

end ExecuteCall

end IdempotentTransformer
