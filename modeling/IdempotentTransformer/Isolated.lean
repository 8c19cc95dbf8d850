import IdempotentTransformer.Library.Saturation
import IdempotentTransformer.Services
import Mathlib.Algebra.Order.Group.Int

/-!
# IdempotentTransformer.Isolated

The handlers run one at a time, on storage that answers every call:
`Handler.run` takes a handler to its end with nobody else moving, and each
handler gets one equation saying what it replies and what it leaves
behind.  Everything proved about isolated handlers rests on these
equations (`run_handleCheckpoint`, `run_handleLeaseCheckpoint`, …), never
on the text of the handlers.
-/

namespace IdempotentTransformer

open Library

/-! ## Running a handler -/

namespace Handler

variable {α β : Type} (env : Env) (w : World)

/-- Run a handler to its end with nobody else moving. -/
def run (env : Env) (m : Handler α) (w : World) : Except HandlerError α × World :=
  Program.isolated (StorageCall.exec env) m.program w

@[simp] theorem run_pure (a : α) : (pure a : Handler α).run env w = (.ok a, w) := rfl

@[simp] theorem run_fail (e : HandlerError) :
    (fail e : Handler α).run env w = (.error e, w) := rfl

@[simp] theorem run_ofResult (r : Except HandlerError α) :
    (ofResult r).run env w = (r, w) := rfl

/-- In isolation `?` goes on with a result and stops at an error, whatever the
calls do. -/
theorem isolated_bind (exec : (call : StorageCall) → World → call.Reply × World) (m : Handler α)
    (f : α → Handler β) :
    Program.isolated exec (m >>= f).program w =
      match Program.isolated exec m.program w with
      | (.ok a, w') => Program.isolated exec (f a).program w'
      | (.error e, w') => (.error e, w') := by
  change Program.isolated exec (m.program.bind (andThen f)) w = _
  rw [Program.isolated_bind]
  cases Program.isolated exec m.program w with
  | mk r w' => cases r <;> rfl

/-- In isolation a `join` runs its left side, then its right side. -/
theorem isolated_join (exec : (call : StorageCall) → World → call.Reply × World) (a : Handler α)
    (b : Handler β) :
    Program.isolated exec (join a b).program w =
      (.ok ((Program.isolated exec a.program w).1,
          (Program.isolated exec b.program (Program.isolated exec a.program w).2).1),
        (Program.isolated exec b.program (Program.isolated exec a.program w).2).2) := by
  simp [join, Program.mapResult, Program.isolated_bind, Program.isolated_join]

@[simp] theorem run_bind (m : Handler α) (f : α → Handler β) :
    (m >>= f).run env w =
      match m.run env w with
      | (.ok a, w') => (f a).run env w'
      | (.error e, w') => (.error e, w') := isolated_bind ..

@[simp] theorem run_join (a : Handler α) (b : Handler β) :
    (join a b).run env w =
      (.ok ((a.run env w).1, (b.run env (a.run env w).2).1), (b.run env (a.run env w).2).2) :=
  isolated_join ..

@[simp] theorem run_lock (key : String) : (lock key).run env w = (.ok (), w) := rfl

@[simp] theorem run_dropGuard (key : String) : (dropGuard key).run env w = (.ok (), w) := rfl

@[simp] theorem run_ite (c : Prop) [Decidable c] (a b : Handler α) :
    (if c then a else b).run env w = if c then a.run env w else b.run env w := by
  split <;> rfl

end Handler

@[simp] theorem run_returnErrorIfTrue (env : Env) (w : World) (condition : Bool)
    (status : HandlerError) :
    (returnErrorIfTrue condition status).run env w =
      (if condition then .error status else .ok (), w) := by
  cases condition <;> rfl

@[simp] theorem run_utcNow (env : Env) (w : World) : utcNow.run env w = (.ok w.now, w) := rfl

/-! ## The repository functions -/

/-- The lease cached for a position, expired or not. -/
def World.leaseAt (w : World) (workflowId : String) (position : Int) :
    Option LeasedCheckpointValue :=
  (w.cache (generateLeasedCheckpointKey workflowId position)).map CachedLease.lease

/-- The lease entry a grant writes at `now`. -/
def grantedLease (leaseTimeout now : Int) : CachedLease :=
  { lease := { leaseTimeout := leaseTimeout, createdAt := now }, ttl := cacheTtl leaseTimeout,
    putAt := now }

/-- The world without the lease of a position. -/
def World.dropLease (w : World) (workflowId : String) (position : Int) : World :=
  w.setCache (generateLeasedCheckpointKey workflowId position) none

section Repositories

variable {env : Env} (hf : env.fault = .none) (w : World) (workflowId : String) (position : Int)

include hf

theorem run_getCheckpoint :
    (getCheckpoint workflowId position).run env w =
      (.ok ((w.checkpoints workflowId position).map fun row =>
        { position := position, idempotencyKey := row.idempotencyKey, value := row.value }),
          w) := by
  obtain ⟨fault, minted, leader⟩ := env
  subst hf
  rfl

theorem run_createCheckpoint (value : Option Bytes) (idempotencyKey : String) :
    (createCheckpoint workflowId value position idempotencyKey).run env w =
      (.ok (), w.setCheckpoint workflowId position
        (upsertCheckpoint (w.checkpoints workflowId position) idempotencyKey value w.now)) := by
  obtain ⟨fault, minted, leader⟩ := env
  subst hf
  rfl

theorem run_leaseCheckpoint (leaseTimeout : Int) :
    (leaseCheckpoint workflowId position leaseTimeout).run env w =
      (.ok (grantedLease leaseTimeout w.now).lease,
        w.setCache (generateLeasedCheckpointKey workflowId position)
          (some (grantedLease leaseTimeout w.now))) := by
  obtain ⟨fault, minted, leader⟩ := env
  subst hf
  rfl

theorem run_removeLeasedCheckpoint :
    (removeLeasedCheckpoint workflowId position).run env w =
      (.ok (w.leaseAt workflowId position), w.dropLease workflowId position) := by
  obtain ⟨fault, minted, leader⟩ := env
  subst hf
  rfl

theorem run_getLeasedCheckpoint :
    (getLeasedCheckpoint workflowId position).run env w =
      (.ok (w.leaseAt workflowId position), w) := by
  obtain ⟨fault, minted, leader⟩ := env
  subst hf
  rfl

theorem run_getWorkflowFencingToken :
    (getWorkflowFencingToken workflowId).run env w = (.ok (w.fencingTokens workflowId), w) := by
  obtain ⟨fault, minted, leader⟩ := env
  subst hf
  rfl

theorem run_incrementWorkflowFencingToken (fencingToken : Int) :
    (incrementWorkflowFencingToken workflowId fencingToken).run env w =
      (.ok (upsertFencingToken (w.fencingTokens workflowId) fencingToken),
        w.setFencingToken workflowId
          (upsertFencingToken (w.fencingTokens workflowId) fencingToken)) := by
  obtain ⟨fault, minted, leader⟩ := env
  subst hf
  rfl

theorem run_createOrGetWorkflow (status : WorkflowStatus) (name : Option String) :
    (createOrGetWorkflow workflowId status name).run env w =
      (.ok (upsertWorkflow (w.workflows workflowId) workflowId status.toInt w.now name),
        w.setWorkflow workflowId
          (upsertWorkflow (w.workflows workflowId) workflowId status.toInt w.now name)) := by
  obtain ⟨fault, minted, leader⟩ := env
  subst hf
  rfl

theorem run_updateWorkflow (expireAt status completedAt : Int) :
    (Handler.await (StorageCall.updateWorkflow expireAt status completedAt workflowId).send).run
        env w =
      (.ok (), match w.workflows workflowId with
        | some row => w.setWorkflow workflowId
            { row with
              expireAt := some expireAt, status := status, completedAt := some completedAt }
        | none => w) := by
  obtain ⟨fault, minted, leader⟩ := env
  subst hf
  rfl

end Repositories

@[simp] theorem run_newV4 (env : Env) (w : World) : newV4.run env w = (.ok env.minted, w) := rfl

/-- A lease whose remaining time is not positive. -/
def LeasedCheckpointValue.Expired (leased : LeasedCheckpointValue) (now : Int) : Prop :=
  remainingLeaseTimeout leased now ≤ 0

instance (leased : LeasedCheckpointValue) (now : Int) : Decidable (leased.Expired now) :=
  inferInstanceAs (Decidable (_ ≤ _))

/-- A lease has expired at the end its saturating sum gives it. -/
theorem LeasedCheckpointValue.expired_iff {leased : LeasedCheckpointValue} {now : Int} :
    leased.Expired now ↔ saturatingAdd leased.createdAt leased.leaseTimeout ≤ now := by
  have hlo : i64Min ≤ 0 := by decide
  have hhi : 0 < i64Max := by decide
  exact clamp_sub_nonpos_iff hlo hhi

/-- A lease once expired stays expired. -/
theorem LeasedCheckpointValue.Expired.mono {leased : LeasedCheckpointValue} {now now' : Int}
    (h : leased.Expired now) (hle : now ≤ now') : leased.Expired now' :=
  expired_iff.mpr ((expired_iff.mp h).trans hle)

/-- A lease whose time is up has expired. -/
theorem LeasedCheckpointValue.Expired.of_add_le {leased : LeasedCheckpointValue} {now : Int}
    (hnow : 0 ≤ now) (h : leased.createdAt + leased.leaseTimeout ≤ now) :
      leased.Expired now := by
  have hmin : i64Min ≤ now := by unfold i64Min; omega
  exact expired_iff.mpr (clamp_le hmin h)

/-- Before its time, and before the end of all time, a lease has not expired. -/
theorem LeasedCheckpointValue.not_expired {leased : LeasedCheckpointValue} {now : Int}
    (h : now < leased.createdAt + leased.leaseTimeout) (hnow : now < i64Max) :
    ¬ leased.Expired now :=
  fun he => (lt_clamp hnow h).not_ge (expired_iff.mp he)

@[simp] theorem run_diffLeaseExpiryFromNow (env : Env) (w : World)
    (leased : LeasedCheckpointValue) :
    (diffLeaseExpiryFromNow leased).run env w = (.ok (remainingLeaseTimeout leased w.now), w) :=
  rfl

/-- The lease a request finds in force: cached and not expired. -/
def World.activeLease (w : World) (workflowId : String) (position : Int) :
    Option LeasedCheckpointValue :=
  (w.leaseAt workflowId position).filter fun leased => !decide (leased.Expired w.now)

theorem World.activeLease_eq_none_iff {w : World} {workflowId : String} {position : Int} :
    w.activeLease workflowId position = none ↔
      ∀ lease, w.leaseAt workflowId position = some lease → lease.Expired w.now := by
  simp [World.activeLease, Option.filter_eq_none_iff]

/-- The world without the workflows `expire_at < $1` finds completed, their
tokens and their checkpoints. -/
def World.collect (w : World) (currentTimestamp : Int) : World :=
  let status := WorkflowStatus.Completed.toInt
  { w with
    workflows := fun id => if w.expired currentTimestamp status id then none else w.workflows id
    fencingTokens := fun id =>
      if w.expired currentTimestamp status id then none else w.fencingTokens id
    checkpoints := fun id position =>
      if w.expired currentTimestamp status id then none else w.checkpoints id position }

/-! ## The handlers -/

/-- `handle_checkpoint` where the result is not refused: it is stored. -/
def storeResult (data : CheckpointInput) (abort : Bool) : Handler CheckpointOutput := do
  createCheckpoint data.workflowId (some data.value) data.position data.idempotencyKey
  return { abort := abort }

/-- `handle_lease_checkpoint` where a row is found. -/
def answerFromRow (checkpoint : CheckpointValue) (idempotencyKey : String) :
    Handler LeaseCheckpointOutput := do
  returnErrorIfTrue (checkpoint.idempotencyKey != idempotencyKey)
    (.io .Interrupted "non_deterministic_checkpoint_found")
  returnErrorIfTrue checkpoint.value.isNone (.io .InvalidData "checkpoint_value_not_found")
  return { response := some (.CheckpointValue (checkpoint.value.getD [])) }

/-- `handle_lease_checkpoint` where no lease is in force: the token decides. -/
def grantLease (data : LeaseCheckpointInput) (foundFencingToken : Option Int) :
    Handler LeaseCheckpointOutput := do
  returnErrorIfTrue foundFencingToken.isNone (.io .InvalidData "fencing_token_not_found")
  returnErrorIfTrue (foundFencingToken.getD 0 > data.fencingToken)
    (.io .InvalidData "fencing_token_expired")
  if data.fencingToken = foundFencingToken.getD 0 then
    let _ ← leaseCheckpoint data.workflowId data.position data.leaseTimeout
    return { response := none }
  Handler.fail (.io .Other "unexpected state")

/-- `handle_lease_checkpoint` where no row is found. -/
def leaseWithoutRow (data : LeaseCheckpointInput) : Handler LeaseCheckpointOutput := do
  Handler.lock s!"{data.workflowId}:{data.position}"
  Handler.dropGuard s!"{data.workflowId}:{data.position}"
  let (leasedCheckpoint, fencingToken) ← Handler.join
    (getLeasedCheckpoint data.workflowId data.position)
    (getWorkflowFencingToken data.workflowId)
  let leasedCheckpoint ← Handler.ofResult leasedCheckpoint
  let fencingToken ← Handler.ofResult fencingToken
  if let some leased := leasedCheckpoint then
    let remainingTime ← diffLeaseExpiryFromNow leased
    if remainingTime > 0 then
      return { response := some (.RemainingLeaseTimeout remainingTime) }
  grantLease data fencingToken

/-- The handler is these parts. -/
theorem handleLeaseCheckpoint_eq (data : LeaseCheckpointInput) :
    handleLeaseCheckpoint data = getCheckpoint data.workflowId data.position >>= fun
      | some checkpoint => answerFromRow checkpoint data.idempotencyKey
      | none => leaseWithoutRow data := by
  unfold handleLeaseCheckpoint
  congr 1
  funext result
  cases result <;> rfl

section Handlers

variable {env : Env} (hf : env.fault = .none) (w : World)

include hf

/-- `handle_checkpoint`: the lease goes in every case; the value is refused
only when the token is superseded and an expired lease was found. -/
theorem run_handleCheckpoint (data : CheckpointInput) :
    (handleCheckpoint data).run env w =
      match w.fencingTokens data.workflowId with
      | none =>
        (.error (.io .NotFound "fencing_token_not_found"),
          w.dropLease data.workflowId data.position)
      | some stored =>
        if data.fencingToken < stored ∧
            ∃ leased ∈ w.leaseAt data.workflowId data.position, leased.Expired w.now then
          (.error (.io .InvalidData "fencing_token_expired"),
            w.dropLease data.workflowId data.position)
        else
          (.ok { abort := decide (data.fencingToken < stored) },
            (w.dropLease data.workflowId data.position).setCheckpoint
              data.workflowId data.position
              (upsertCheckpoint (w.checkpoints data.workflowId data.position)
                data.idempotencyKey (some data.value) w.now)) := by
  simp only [handleCheckpoint, Handler.run_bind, Handler.run_join, Handler.run_ofResult,
    run_getWorkflowFencingToken hf, run_removeLeasedCheckpoint hf, run_returnErrorIfTrue]
  cases w.fencingTokens data.workflowId with
  | none => rfl
  | some stored =>
      cases w.leaseAt data.workflowId data.position with
      | none =>
          simp [run_createCheckpoint hf]
          rfl
      | some leased =>
          by_cases he : leased.Expired w.now
          · have hle : remainingLeaseTimeout leased w.now ≤ 0 := he
            by_cases ht : data.fencingToken < stored
            · simp [World.dropLease, hle, he, ht]
            · simp [World.dropLease, run_createCheckpoint hf, hle, ht]
          · have hle : ¬ remainingLeaseTimeout leased w.now ≤ 0 := he
            simp [World.dropLease, run_createCheckpoint hf, hle, he]

/-- The part of `handle_lease_checkpoint` after the lease has been looked
at: the token decides. -/
theorem run_grant (data : LeaseCheckpointInput) :
    (grantLease data (w.fencingTokens data.workflowId)).run env w =
      match w.fencingTokens data.workflowId with
      | none => (.error (.io .InvalidData "fencing_token_not_found"), w)
      | some stored =>
        if data.fencingToken < stored then
          (.error (.io .InvalidData "fencing_token_expired"), w)
        else if data.fencingToken = stored then
          (.ok { response := none },
            w.setCache (generateLeasedCheckpointKey data.workflowId data.position)
              (some (grantedLease data.leaseTimeout w.now)))
        else (.error (.io .Other "unexpected state"), w) := by
  cases w.fencingTokens data.workflowId with
  | none => rfl
  | some stored =>
      by_cases hlt : data.fencingToken < stored
      · simp [grantLease, hlt]
      · by_cases heq : data.fencingToken = stored
        · simp [grantLease, run_leaseCheckpoint hf, heq]
        · simp [grantLease, hlt, heq]

/-- `handle_lease_checkpoint`: a stored row decides the reply alone, then a
lease in force, then the token. -/
theorem run_handleLeaseCheckpoint (data : LeaseCheckpointInput) :
    (handleLeaseCheckpoint data).run env w =
      match w.checkpoints data.workflowId data.position with
      | some row =>
        if row.idempotencyKey ≠ data.idempotencyKey then
          (.error (.io .Interrupted "non_deterministic_checkpoint_found"), w)
        else
          match row.value with
          | none => (.error (.io .InvalidData "checkpoint_value_not_found"), w)
          | some value => (.ok { response := some (.CheckpointValue value) }, w)
      | none =>
        match w.activeLease data.workflowId data.position with
        | some leased =>
          (.ok
            { response := some
                (.RemainingLeaseTimeout (remainingLeaseTimeout leased w.now)) }, w)
        | none =>
          match w.fencingTokens data.workflowId with
          | none => (.error (.io .InvalidData "fencing_token_not_found"), w)
          | some stored =>
            if data.fencingToken < stored then
              (.error (.io .InvalidData "fencing_token_expired"), w)
            else if data.fencingToken = stored then
              (.ok { response := none },
                w.setCache (generateLeasedCheckpointKey data.workflowId data.position)
                  (some (grantedLease data.leaseTimeout w.now)))
            else (.error (.io .Other "unexpected state"), w) := by
  rw [handleLeaseCheckpoint_eq, Handler.run_bind, run_getCheckpoint hf]
  cases hrow : w.checkpoints data.workflowId data.position with
  | some row =>
      by_cases hk : row.idempotencyKey = data.idempotencyKey
      · cases hv : row.value <;> simp [answerFromRow, hk, hv]
      · simp [answerFromRow, hk]
  | none =>
      simp only [Option.map_none, leaseWithoutRow, Handler.run_bind, Handler.run_lock,
        Handler.run_dropGuard, Handler.run_join, run_getLeasedCheckpoint hf,
        run_getWorkflowFencingToken hf, Handler.run_ofResult, World.activeLease]
      cases w.leaseAt data.workflowId data.position with
      | none => exact run_grant hf w data
      | some leased =>
          simp only [Handler.run_bind, run_diffLeaseExpiryFromNow, Handler.run_ite, gt_iff_lt]
          by_cases he : leased.Expired w.now
          · have hle : ¬ 0 < remainingLeaseTimeout leased w.now := Int.not_lt.mpr he
            have hnone : (some leased).filter (fun l => !decide (l.Expired w.now)) = none := by
              simp [Option.filter, he]
            rw [hnone, if_neg hle]
            exact run_grant hf w data
          · have hlt : 0 < remainingLeaseTimeout leased w.now := Int.not_le.mp he
            have hsome : (some leased).filter
              (fun l => !decide (l.Expired w.now)) = some leased := by
              simp [Option.filter, he]
            rw [hsome, if_pos hlt]
            rfl

theorem run_releaseCheckpoint (data : ReleaseCheckpointInput) :
    (releaseCheckpoint data).run env w =
      (.ok (), w.dropLease data.workflowId data.position) := by
  simp [releaseCheckpoint, run_removeLeasedCheckpoint hf]

/-- `create_durable_idempotency_key`: the key of a stored row is returned;
otherwise a row without a value is stored under the minted key. -/
theorem run_createDurableIdempotencyKey (data : CreateDurableIdempotencyKeyInput) :
    (createDurableIdempotencyKey data).run env w =
      match w.checkpoints data.workflowId data.position with
      | some row => (.ok { idempotencyKey := row.idempotencyKey }, w)
      | none =>
        match w.fencingTokens data.workflowId with
        | none => (.error (.io .InvalidData "fencing_token_not_found"), w)
        | some stored =>
          if data.fencingToken < stored then
            (.error (.io .InvalidData "fencing_token_expired"), w)
          else
            (.ok { idempotencyKey := env.minted },
              w.setCheckpoint data.workflowId data.position
                { idempotencyKey := env.minted, value := none, createdAt := w.now }) := by
  simp only [createDurableIdempotencyKey, Handler.run_bind, Handler.run_lock,
    Handler.run_dropGuard, run_getCheckpoint hf]
  cases hrow : w.checkpoints data.workflowId data.position with
  | some row => simp
  | none =>
      simp only [Option.map_none, Handler.run_bind, run_getWorkflowFencingToken hf,
        run_returnErrorIfTrue]
      cases w.fencingTokens data.workflowId with
      | none => rfl
      | some stored =>
          by_cases hlt : data.fencingToken < stored
          · simp [hlt]
          · simp [hlt, run_newV4, run_createCheckpoint hf, hrow, upsertCheckpoint]

theorem run_createWorkflow (data : CreateWorkflowInput) :
    (createWorkflow data).run env w =
      (.ok { fencingToken := upsertFencingToken (w.fencingTokens data.workflowId) 1 },
        (w.setWorkflow data.workflowId (upsertWorkflow (w.workflows data.workflowId)
          data.workflowId WorkflowStatus.Running.toInt w.now data.name)).setFencingToken
          data.workflowId (upsertFencingToken (w.fencingTokens data.workflowId) 1)) := by
  simp [createWorkflow, run_createOrGetWorkflow hf, run_incrementWorkflowFencingToken hf]

/-- `finish_workflow`. -/
theorem run_finishWorkflow (data : FinishWorkflowInput) :
    (finishWorkflow data).run env w =
      match w.fencingTokens data.workflowId with
      | none => (.error (.io .NotFound "fencing_token_not_found"), w)
      | some stored =>
        if stored < data.fencingToken then
          (.error (.io .InvalidData "fencing_token_expired"), w)
        else
          (.ok (), match w.workflows data.workflowId with
            | some row => w.setWorkflow data.workflowId
                { row with
                  expireAt := some (wrappingAdd w.now data.expireAfter)
                  status := WorkflowStatus.Completed.toInt
                  completedAt := some w.now }
            | none => w) := by
  simp only [finishWorkflow, Handler.run_bind, run_getWorkflowFencingToken hf,
    run_returnErrorIfTrue, run_utcNow]
  cases w.fencingTokens data.workflowId with
  | none => rfl
  | some stored =>
      by_cases hlt : stored < data.fencingToken
      · simp [hlt]
      · simp [hlt, run_updateWorkflow hf]

theorem run_getWorkflow (workflowId : String) :
    (getWorkflow workflowId).run env w = (.ok (w.workflows workflowId), w) := by
  obtain ⟨fault, minted, leader⟩ := env
  subst hf
  rfl

/-- `handle_workflow_cleanup`: the leader deletes every expired workflow
with its token and checkpoints. -/
theorem run_handleWorkflowCleanup :
    handleWorkflowCleanup.run env w =
      (.ok (), if env.leader then w.collect w.now else w) := by
  obtain ⟨fault, minted, leader⟩ := env
  subst hf
  cases leader <;> rfl

end Handlers

end IdempotentTransformer
