import Mathlib
import IdempotentTransformer.Isolated

/-!
# IdempotentTransformer.Handle

What one request, handled in isolation, does to the parts of the world:
the leases, the rows, the tokens.  These are the step lemmas of every run
of isolated handlers:

* `handle_leaseCheckpoint_granted_iff` — when a lease is granted;
* `handle_cache_cases` — the lease of a position after any request;
* `handle_checkpoints_cases` — the row of a position after any request;
* `handle_fencingTokens` — the tokens after any request.
-/

namespace IdempotentTransformer

open Library

/-! ## Cache keys -/

/-- A decimal numeral has no colon. -/
theorem notMem_repr (n : Int) : ':' ∉ n.repr.toList := by
  intro h
  cases n with
  | ofNat m =>
      simp only [Int.repr, Nat.repr, String.toList_ofList] at h
      have hd := Nat.isDigit_of_mem_toDigits (by decide) (by decide) h
      simp at hd
  | negSucc m =>
      simp [Int.repr, Nat.repr] at h
      have hd := Nat.isDigit_of_mem_toDigits (by decide) (by decide) h
      simp at hd

/-- A list is split in one way at the last occurrence of an element. -/
private theorem append_cons_inj_last {α : Type} {a : α} {xs xs' ys ys' : List α}
    (h : xs ++ a :: ys = xs' ++ a :: ys') (hy : a ∉ ys) (hy' : a ∉ ys') :
    xs = xs' ∧ ys = ys' := by
  rcases List.append_eq_append_iff.mp h with ⟨zs, rfl, hz⟩ | ⟨zs, rfl, hz⟩
  · cases zs with
    | nil => simpa using hz
    | cons z zs =>
        obtain ⟨-, rfl⟩ : a = z ∧ ys = zs ++ a :: ys' := by simpa using hz
        exact absurd (by simp) hy
  · cases zs with
    | nil => simpa [eq_comm] using hz
    | cons z zs =>
        obtain ⟨-, rfl⟩ : a = z ∧ ys' = zs ++ a :: ys := by simpa using hz
        exact absurd (by simp) hy'

/-- `"{workflow_id}:{position}"` names one position of one workflow, whatever
the workflow id contains. -/
theorem generateLeasedCheckpointKey_inj {w w' : String} {p p' : Int} :
    generateLeasedCheckpointKey w p = generateLeasedCheckpointKey w' p' ↔ w = w' ∧ p = p' := by
  constructor
  · intro h
    have hl : w.toList ++ ':' :: p.repr.toList = w'.toList ++ ':' :: p'.repr.toList := by
      have hl := congrArg String.toList h
      simpa [generateLeasedCheckpointKey, toString] using hl
    obtain ⟨hw, hp⟩ := append_cons_inj_last hl (notMem_repr p) (notMem_repr p')
    exact ⟨String.toList_inj.mp hw, Int.repr_inj.mp (String.toList_inj.mp hp)⟩
  · rintro ⟨rfl, rfl⟩
    rfl

/-! ## Handling a request -/

/-- The environment of an isolated handler: every call succeeds. -/
def Env.calm (minted : String) (leader : Bool) : Env :=
  { fault := .none, minted := minted, leader := leader }

/-- Handle a request in isolation. -/
def Request.handle (env : Env) (request : Request) (w : World) :
    Except HandlerError Response × World :=
  request.handler.run env w

/-! ## What a handled request leaves behind -/

/-- A handler wrapped into its response. -/
private theorem run_wrap {α : Type} (env : Env) (m : Handler α) (f : α → Response) (w : World) :
    (m >>= fun a => pure (f a)).run env w = ((m.run env w).1.map f, (m.run env w).2) := by
  rw [Handler.run_bind]
  cases m.run env w with
  | mk r w' => cases r <;> rfl

section Handle

variable (env : Env) (w : World)

theorem handle_workflowStart (data : CreateWorkflowInput) :
    (Request.workflowStart data).handle env w =
      (((createWorkflow data).run env w).1.map .workflowStart,
        ((createWorkflow data).run env w).2) := run_wrap ..

theorem handle_checkpoint (data : CheckpointInput) :
    (Request.checkpoint data).handle env w =
      (((handleCheckpoint data).run env w).1.map .checkpoint,
        ((handleCheckpoint data).run env w).2) := run_wrap ..

theorem handle_leaseCheckpoint (data : LeaseCheckpointInput) :
    (Request.leaseCheckpoint data).handle env w =
      (((handleLeaseCheckpoint data).run env w).1.map .leaseCheckpoint,
        ((handleLeaseCheckpoint data).run env w).2) := run_wrap ..

theorem handle_completeWorkflow (data : FinishWorkflowInput) :
    (Request.completeWorkflow data).handle env w =
      (((finishWorkflow data).run env w).1.map fun _ => .completeWorkflow,
        ((finishWorkflow data).run env w).2) := run_wrap ..

theorem handle_workflowStatus (workflowId : String) :
    (Request.workflowStatus workflowId).handle env w =
      (((getWorkflow workflowId).run env w).1.map .workflowStatus,
        ((getWorkflow workflowId).run env w).2) := run_wrap ..

theorem handle_releaseCheckpoint (data : ReleaseCheckpointInput) :
    (Request.releaseCheckpoint data).handle env w =
      (((releaseCheckpoint data).run env w).1.map fun _ => .releaseCheckpoint,
        ((releaseCheckpoint data).run env w).2) := run_wrap ..

theorem handle_generateIdempotencyKey (data : CreateDurableIdempotencyKeyInput) :
    (Request.generateIdempotencyKey data).handle env w =
      (((createDurableIdempotencyKey data).run env w).1.map .generateIdempotencyKey,
        ((createDurableIdempotencyKey data).run env w).2) := run_wrap ..

theorem handle_cleanUp :
    Request.cleanUp.handle env w =
      ((handleWorkflowCleanup.run env w).1.map fun _ => .cleanUp,
        (handleWorkflowCleanup.run env w).2) := run_wrap ..

end Handle

/-! ### replies -/

/-- A response of the kind the request asks for. -/
def Request.Fits : Request → Response → Prop
  | .workflowStart _, .workflowStart _ => True
  | .checkpoint _, .checkpoint _ => True
  | .leaseCheckpoint _, .leaseCheckpoint _ => True
  | .completeWorkflow _, .completeWorkflow => True
  | .workflowStatus _, .workflowStatus _ => True
  | .releaseCheckpoint _, .releaseCheckpoint => True
  | .generateIdempotencyKey _, .generateIdempotencyKey _ => True
  | .cleanUp, .cleanUp => True
  | _, _ => False

section Fits

variable {env : Env} {w : World} {request : Request}

private theorem exists_of_map_ok {α : Type} {r : Except HandlerError α} {f : α → Response}
    {response : Response} (h : r.map f = .ok response) : ∃ a, response = f a := by
  cases r with
  | error err => cases h
  | ok a =>
      cases h
      exact ⟨a, rfl⟩

/-- A request is refused, or answered with a response that fits it. -/
theorem handle_fits {response : Response} (h : (request.handle env w).1 = .ok response) :
    request.Fits response := by
  cases request with
  | workflowStart data =>
      rw [handle_workflowStart] at h
      obtain ⟨output, rfl⟩ := exists_of_map_ok h
      trivial
  | checkpoint data =>
      rw [handle_checkpoint] at h
      obtain ⟨output, rfl⟩ := exists_of_map_ok h
      trivial
  | leaseCheckpoint data =>
      rw [handle_leaseCheckpoint] at h
      obtain ⟨output, rfl⟩ := exists_of_map_ok h
      trivial
  | completeWorkflow data =>
      rw [handle_completeWorkflow] at h
      obtain ⟨output, rfl⟩ := exists_of_map_ok h
      trivial
  | workflowStatus workflowId =>
      rw [handle_workflowStatus] at h
      obtain ⟨output, rfl⟩ := exists_of_map_ok h
      trivial
  | releaseCheckpoint data =>
      rw [handle_releaseCheckpoint] at h
      obtain ⟨output, rfl⟩ := exists_of_map_ok h
      trivial
  | generateIdempotencyKey data =>
      rw [handle_generateIdempotencyKey] at h
      obtain ⟨output, rfl⟩ := exists_of_map_ok h
      trivial
  | cleanUp =>
      rw [handle_cleanUp] at h
      obtain ⟨output, rfl⟩ := exists_of_map_ok h
      trivial

theorem exists_of_leaseCheckpoint {output : LeaseCheckpointOutput}
    (h : (request.handle env w).1 = .ok (.leaseCheckpoint output)) :
    ∃ data, request = .leaseCheckpoint data := by
  have hfits := handle_fits h
  cases request with
  | leaseCheckpoint data => exact ⟨data, rfl⟩
  | _ => exact absurd hfits id

theorem exists_of_checkpoint {output : CheckpointOutput}
    (h : (request.handle env w).1 = .ok (.checkpoint output)) :
    ∃ data, request = .checkpoint data := by
  have hfits := handle_fits h
  cases request with
  | checkpoint data => exact ⟨data, rfl⟩
  | _ => exact absurd hfits id

end Fits

/-! ### grants -/

/-- The reply that grants a lease. -/
def granted : Except HandlerError Response := .ok (.leaseCheckpoint { response := none })

section Grant

variable {env : Env} (hf : env.fault = .none) (w : World) (data : LeaseCheckpointInput)

include hf

/-- **When a lease is granted**: no row, no lease in force, and the token is
the stored one. -/
theorem handle_leaseCheckpoint_granted_iff :
    ((Request.leaseCheckpoint data).handle env w).1 = granted ↔
      w.checkpoints data.workflowId data.position = none ∧
        w.activeLease data.workflowId data.position = none ∧
        w.fencingTokens data.workflowId = some data.fencingToken := by
  rw [handle_leaseCheckpoint, run_handleLeaseCheckpoint hf]
  unfold granted
  cases w.checkpoints data.workflowId data.position with
  | some row =>
      by_cases hk : row.idempotencyKey = data.idempotencyKey
      · cases hv : row.value <;> simp [hk, Except.map, hv]
      · simp [hk, Except.map]
  | none =>
      cases w.activeLease data.workflowId data.position with
      | some leased => simp [Except.map]
      | none =>
          cases w.fencingTokens data.workflowId with
          | none => simp [Except.map]
          | some stored =>
              by_cases hlt : data.fencingToken < stored
              · simp [hlt, Except.map, Int.ne_of_gt hlt]
              · by_cases heq : data.fencingToken = stored
                · simp [heq, Except.map]
                · simp [hlt, heq, Except.map, Ne.symm heq]

/-- A grant caches the lease and changes nothing else. -/
theorem handle_leaseCheckpoint_of_granted
    (h : ((Request.leaseCheckpoint data).handle env w).1 = granted) :
    ((Request.leaseCheckpoint data).handle env w).2 =
      w.setCache (generateLeasedCheckpointKey data.workflowId data.position)
        (some (grantedLease data.leaseTimeout w.now)) := by
  obtain ⟨hrow, hlease, htoken⟩ := (handle_leaseCheckpoint_granted_iff hf w data).mp h
  rw [handle_leaseCheckpoint, run_handleLeaseCheckpoint hf]
  simp [hrow, hlease, htoken]

/-- A lease request that is not granted changes nothing. -/
theorem handle_leaseCheckpoint_of_not_granted
    (h : ((Request.leaseCheckpoint data).handle env w).1 ≠ granted) :
    ((Request.leaseCheckpoint data).handle env w).2 = w := by
  rw [Ne, handle_leaseCheckpoint_granted_iff hf] at h
  rw [handle_leaseCheckpoint, run_handleLeaseCheckpoint hf]
  cases hrow : w.checkpoints data.workflowId data.position with
  | some row =>
      by_cases hk : row.idempotencyKey = data.idempotencyKey
      · cases hv : row.value <;> simp [hk, hv]
      · simp [hk]
  | none =>
      cases hlease : w.activeLease data.workflowId data.position with
      | some leased => rfl
      | none =>
          cases htoken : w.fencingTokens data.workflowId with
          | none => rfl
          | some stored =>
              by_cases hlt : data.fencingToken < stored
              · simp [hlt]
              · have hne : data.fencingToken ≠ stored := by
                  rintro rfl
                  exact h ⟨hrow, hlease, htoken⟩
                simp [hlt, hne]

/-- What a lease request that finds no row is answered. -/
theorem handle_leaseCheckpoint_without_row
    (hrow : w.checkpoints data.workflowId data.position = none) :
    ((Request.leaseCheckpoint data).handle env w).1 = granted ∨
      (∃ leased, w.activeLease data.workflowId data.position = some leased ∧
        ((Request.leaseCheckpoint data).handle env w).1 = .ok (.leaseCheckpoint
          { response := some (.RemainingLeaseTimeout (remainingLeaseTimeout leased w.now)) })) ∨
      ∃ e, ((Request.leaseCheckpoint data).handle env w).1 = .error e := by
  rw [handle_leaseCheckpoint, run_handleLeaseCheckpoint hf, hrow]
  cases w.activeLease data.workflowId data.position with
  | some leased => exact .inr (.inl ⟨leased, rfl, rfl⟩)
  | none =>
      cases w.fencingTokens data.workflowId with
      | none => exact .inr (.inr ⟨_, rfl⟩)
      | some stored =>
          dsimp only
          split
          · exact .inr (.inr ⟨_, rfl⟩)
          · split
            · exact .inl rfl
            · exact .inr (.inr ⟨_, rfl⟩)

end Grant

/-- The reply to a lease request where a row is stored: the row alone
decides it, whatever the token. -/
def replayReply (row : Checkpoint) (idempotencyKey : String) : Except HandlerError Response :=
  if row.idempotencyKey ≠ idempotencyKey then
    .error (.io .Interrupted "non_deterministic_checkpoint_found")
  else
    match row.value with
    | none => .error (.io .InvalidData "checkpoint_value_not_found")
    | some value => .ok (.leaseCheckpoint { response := some (.CheckpointValue value) })

theorem replayReply_ne_granted (row : Checkpoint) (idempotencyKey : String) :
    replayReply row idempotencyKey ≠ granted := by
  unfold replayReply granted
  split
  · simp
  · cases row.value <;> simp

/-- A lease request finds a row: it is answered from the row and changes
nothing. -/
theorem handle_leaseCheckpoint_of_row {env : Env} (hf : env.fault = .none) {w : World}
    {data : LeaseCheckpointInput} {row : Checkpoint}
    (hrow : w.checkpoints data.workflowId data.position = some row) :
    (Request.leaseCheckpoint data).handle env w = (replayReply row data.idempotencyKey, w) := by
  rw [handle_leaseCheckpoint, run_handleLeaseCheckpoint hf]
  simp only [hrow, replayReply]
  by_cases hk : row.idempotencyKey = data.idempotencyKey
  · cases hv : row.value <;> simp [hk, Except.map]
  · simp [hk, Except.map]

/-- A lease request is answered with a value only from a row. -/
theorem handle_leaseCheckpoint_of_value {env : Env} (hf : env.fault = .none) {w : World}
    {data : LeaseCheckpointInput} {value : Bytes}
    (h : ((Request.leaseCheckpoint data).handle env w).1 =
      .ok (.leaseCheckpoint { response := some (.CheckpointValue value) })) :
    ∃ row, w.checkpoints data.workflowId data.position = some row ∧ row.value = some value := by
  cases hrow : w.checkpoints data.workflowId data.position with
  | some row =>
      rw [handle_leaseCheckpoint_of_row hf hrow, replayReply] at h
      split at h
      · contradiction
      · cases hv : row.value with
        | none => simp [hv] at h
        | some found => exact ⟨row, rfl, by simpa [hv] using h⟩
  | none =>
      rcases handle_leaseCheckpoint_without_row hf w data hrow with
        hg | ⟨leased, -, hl⟩ | ⟨e, he⟩
      · rw [hg] at h
        cases h
      · rw [hl] at h
        cases h
      · rw [he] at h
        cases h

/-- A remaining timeout a lease request is answered with is positive. -/
theorem handle_leaseCheckpoint_of_remaining {env : Env} (hf : env.fault = .none) {w : World}
    {data : LeaseCheckpointInput} {remaining : Int}
    (h : ((Request.leaseCheckpoint data).handle env w).1 =
      .ok (.leaseCheckpoint { response := some (.RemainingLeaseTimeout remaining) })) :
    0 < remaining := by
  cases hrow : w.checkpoints data.workflowId data.position with
  | some row =>
      rw [handle_leaseCheckpoint_of_row hf hrow, replayReply] at h
      split at h
      · contradiction
      · cases hv : row.value <;> simp [hv] at h
  | none =>
      rcases handle_leaseCheckpoint_without_row hf w data hrow with
        hg | ⟨leased, hl, hr⟩ | ⟨e, he⟩
      · rw [hg] at h
        cases h
      · have hlive : ¬ leased.Expired w.now := by
          have hfilter := (Option.mem_filter_iff.mp hl).2
          simpa using hfilter
        rw [hr] at h
        simp only [Except.ok.injEq, Response.leaseCheckpoint.injEq,
          LeaseCheckpointOutput.mk.injEq,
          Option.some.injEq, LeaseCheckpointReturnType.RemainingLeaseTimeout.injEq] at h
        rw [← h]
        exact Int.not_le.mp hlive
      · rw [he] at h
        cases h

/-- A key request finds a row: the key of the row is the reply. -/
theorem handle_generateIdempotencyKey_of_row {env : Env} (hf : env.fault = .none) {w : World}
    {data : CreateDurableIdempotencyKeyInput} {row : Checkpoint}
    (hrow : w.checkpoints data.workflowId data.position = some row) :
    (Request.generateIdempotencyKey data).handle env w =
      (.ok (.generateIdempotencyKey { idempotencyKey := row.idempotencyKey }), w) := by
  rw [handle_generateIdempotencyKey, run_createDurableIdempotencyKey hf]
  simp [hrow, Except.map]

/-- A key request of the current token finds no row: it stores the key without
a value. -/
theorem handle_generateIdempotencyKey_of_current {env : Env}
    (hf : env.fault = .none) {w : World} {data : CreateDurableIdempotencyKeyInput}
    (hrow : w.checkpoints data.workflowId data.position = none)
    (ht : w.fencingTokens data.workflowId = some data.fencingToken) :
    (Request.generateIdempotencyKey data).handle env w =
      (.ok (.generateIdempotencyKey { idempotencyKey := env.minted }),
        w.setCheckpoint data.workflowId data.position
          { idempotencyKey := env.minted, value := none, createdAt := w.now }) := by
  rw [handle_generateIdempotencyKey, run_createDurableIdempotencyKey hf]
  simp [hrow, ht, Except.map]

/-! ### the cache -/

/-- The position whose lease a request may change. -/
def Request.leasePosition : Request → Option (String × Int)
  | .leaseCheckpoint data => some (data.workflowId, data.position)
  | .checkpoint data => some (data.workflowId, data.position)
  | .releaseCheckpoint data => some (data.workflowId, data.position)
  | _ => none

/-- The requests that end the lease of their position. -/
def Request.endsLease : Request → Bool
  | .checkpoint _ | .releaseCheckpoint _ => true
  | _ => false

section Cache

variable {env : Env} (hf : env.fault = .none) (w : World)

include hf

theorem handle_checkpoint_cache (data : CheckpointInput) :
    ((Request.checkpoint data).handle env w).2.cache =
      (w.dropLease data.workflowId data.position).cache := by
  rw [handle_checkpoint, run_handleCheckpoint hf]
  cases w.fencingTokens data.workflowId with
  | none => rfl
  | some stored =>
      dsimp only
      split <;> rfl

theorem handle_releaseCheckpoint_cache (data : ReleaseCheckpointInput) :
    ((Request.releaseCheckpoint data).handle env w).2.cache =
      (w.dropLease data.workflowId data.position).cache := by
  rw [handle_releaseCheckpoint, run_releaseCheckpoint hf]

/-- A checkpoint or a release takes the lease of its position away. -/
theorem handle_cache_of_endsLease {request : Request} (he : request.endsLease = true)
    {workflowId : String} {position : Int}
    (hp : request.leasePosition = some (workflowId, position)) :
    (request.handle env w).2.cache = (w.dropLease workflowId position).cache := by
  cases request with
  | checkpoint data =>
      cases hp
      exact handle_checkpoint_cache hf w data
  | releaseCheckpoint data =>
      cases hp
      exact handle_releaseCheckpoint_cache hf w data
  | _ => simp [Request.endsLease] at he

/-- A completion changes at most the row of its workflow. -/
theorem handle_completeWorkflow_world (data : FinishWorkflowInput) :
    ((Request.completeWorkflow data).handle env w).2 = w ∨
      ∃ row, ((Request.completeWorkflow data).handle env w).2 =
        w.setWorkflow data.workflowId row := by
  rw [handle_completeWorkflow, run_finishWorkflow hf]
  cases w.fencingTokens data.workflowId with
  | none => exact .inl rfl
  | some stored =>
      dsimp only
      split
      · exact .inl rfl
      · cases w.workflows data.workflowId with
        | none => exact .inl rfl
        | some row => exact .inr ⟨_, rfl⟩

/-- Any other request leaves the cache alone, unless it is a granted lease. -/
theorem handle_cache_of_not_endsLease {request : Request} (he : request.endsLease = false)
    (hg : (request.handle env w).1 ≠ granted) : (request.handle env w).2.cache = w.cache := by
  cases request with
  | leaseCheckpoint data => rw [handle_leaseCheckpoint_of_not_granted hf w data hg]
  | checkpoint data => simp [Request.endsLease] at he
  | releaseCheckpoint data => simp [Request.endsLease] at he
  | workflowStart data => rw [handle_workflowStart, run_createWorkflow hf]; rfl
  | completeWorkflow data =>
      rcases handle_completeWorkflow_world hf w data with h | ⟨row, h⟩
      · rw [h]
      · rw [h]
        rfl
  | workflowStatus workflowId => rw [handle_workflowStatus, run_getWorkflow hf]
  | generateIdempotencyKey data =>
      rw [handle_generateIdempotencyKey, run_createDurableIdempotencyKey hf]
      cases w.checkpoints data.workflowId data.position with
      | some row => rfl
      | none =>
          cases w.fencingTokens data.workflowId with
          | none => rfl
          | some stored =>
              dsimp only
              split <;> rfl
  | cleanUp =>
      rw [handle_cleanUp, run_handleWorkflowCleanup hf]
      cases env.leader <;> rfl

/-- The lease of a position after any request: taken away, granted anew, or
as it was. -/
theorem handle_cache_cases (request : Request) (workflowId : String) (position : Int) :
    (request.endsLease = true ∧ request.leasePosition = some (workflowId, position) ∧
        (request.handle env w).2.cache
          (generateLeasedCheckpointKey workflowId position) = none) ∨
      (∃ data, request = .leaseCheckpoint data ∧ data.workflowId = workflowId ∧
        data.position = position ∧ (request.handle env w).1 = granted ∧
        (request.handle env w).2.cache (generateLeasedCheckpointKey workflowId position) =
          some (grantedLease data.leaseTimeout w.now)) ∨
      ((request.handle env w).2.cache (generateLeasedCheckpointKey workflowId position) =
          w.cache (generateLeasedCheckpointKey workflowId position) ∧
        (request.leasePosition = some (workflowId, position) →
          request.endsLease = false ∧ (request.handle env w).1 ≠ granted)) := by
  by_cases he : request.endsLease = true
  · obtain ⟨w', p', hp⟩ : ∃ w' p', request.leasePosition = some (w', p') := by
      cases request <;> simp [Request.endsLease] at he <;> exact ⟨_, _, rfl⟩
    have hc := handle_cache_of_endsLease hf w he hp
    by_cases heq : workflowId = w' ∧ position = p'
    · obtain ⟨rfl, rfl⟩ := heq
      refine .inl ⟨he, hp, ?_⟩
      rw [hc]
      simp [World.dropLease, World.setCache_cache]
    · refine .inr (.inr ⟨?_, ?_⟩)
      · rw [hc, World.dropLease, World.setCache_cache, if_neg]
        rwa [generateLeasedCheckpointKey_inj]
      · intro hp'
        rw [hp, Option.some.injEq, Prod.mk.injEq] at hp'
        exact absurd ⟨hp'.1.symm, hp'.2.symm⟩ heq
  · rw [Bool.not_eq_true] at he
    by_cases hg : (request.handle env w).1 = granted
    · obtain ⟨data, rfl⟩ := exists_of_leaseCheckpoint hg
      rw [handle_leaseCheckpoint_of_granted hf w data hg, World.setCache_cache]
      by_cases heq : workflowId = data.workflowId ∧ position = data.position
      · obtain ⟨rfl, rfl⟩ := heq
        exact .inr (.inl ⟨data, rfl, rfl, rfl, hg, by simp⟩)
      · refine .inr (.inr ⟨?_, ?_⟩)
        · rw [if_neg]
          rwa [generateLeasedCheckpointKey_inj]
        · intro hp'
          rw [Request.leasePosition, Option.some.injEq, Prod.mk.injEq] at hp'
          exact absurd ⟨hp'.1.symm, hp'.2.symm⟩ heq
    · refine .inr (.inr ⟨?_, fun _ => ⟨he, hg⟩⟩)
      rw [handle_cache_of_not_endsLease hf w he hg]

end Cache

/-! ### rows -/

/-- The row a checkpoint request stores where there is none. -/
def CheckpointInput.row (data : CheckpointInput) (now : Int) : Checkpoint :=
  { idempotencyKey := data.idempotencyKey, value := some data.value, createdAt := now }

section Rows

variable {env : Env} (hf : env.fault = .none) (w : World)

include hf

/-- Whether a checkpoint request is accepted: a token is stored, and if it is
newer than the request's, no expired lease is cached. -/
theorem handle_checkpoint_ok_iff (data : CheckpointInput) (abort : Bool) :
    ((Request.checkpoint data).handle env w).1 = .ok (.checkpoint { abort := abort }) ↔
      ∃ stored, w.fencingTokens data.workflowId = some stored ∧
        abort = decide (data.fencingToken < stored) ∧
        (data.fencingToken < stored →
          ∀ leased ∈ w.leaseAt data.workflowId data.position, ¬ leased.Expired w.now) := by
  rw [handle_checkpoint, run_handleCheckpoint hf]
  cases w.fencingTokens data.workflowId with
  | none => simp [Except.map]
  | some stored =>
      dsimp only
      split
      · next hc =>
          obtain ⟨hlt, leased, hl, he⟩ := hc
          simp only [Except.map, reduceCtorEq, Option.some.injEq, exists_eq_left', false_iff,
            not_and, Classical.not_imp, not_forall, not_not]
          exact fun _ => ⟨hlt, leased, hl, he⟩
      · next hc =>
          simp only [not_and, not_exists] at hc
          simpa [Except.map, eq_comm] using fun _ => hc

/-- The row of a position after a checkpoint request for it. -/
theorem handle_checkpoint_checkpoints (data : CheckpointInput) :
    ((Request.checkpoint data).handle env w).2.checkpoints data.workflowId data.position =
      if ∃ abort, ((Request.checkpoint data).handle env w).1 =
        .ok (.checkpoint { abort := abort })
      then some (upsertCheckpoint (w.checkpoints data.workflowId data.position)
        data.idempotencyKey (some data.value) w.now)
      else w.checkpoints data.workflowId data.position := by
  rw [handle_checkpoint, run_handleCheckpoint hf]
  cases w.fencingTokens data.workflowId with
  | none => simp [Except.map, World.dropLease]
  | some stored =>
      dsimp only
      split
      · simp [Except.map, World.dropLease]
      · simp [Except.map, World.setCheckpoint_checkpoints]

/-- Requests other than a checkpoint, a key request and cleanup leave the
rows alone. -/
theorem handle_checkpoints_eq {request : Request}
    (hc : ∀ data, request ≠ .checkpoint data)
    (hg : ∀ data, request ≠ .generateIdempotencyKey data) (hu : request ≠ .cleanUp) :
    (request.handle env w).2.checkpoints = w.checkpoints := by
  cases request with
  | checkpoint data => exact absurd rfl (hc data)
  | generateIdempotencyKey data => exact absurd rfl (hg data)
  | cleanUp => exact absurd rfl hu
  | leaseCheckpoint data =>
      by_cases h : ((Request.leaseCheckpoint data).handle env w).1 = granted
      · rw [handle_leaseCheckpoint_of_granted hf w data h]; rfl
      · rw [handle_leaseCheckpoint_of_not_granted hf w data h]
  | releaseCheckpoint data => rw [handle_releaseCheckpoint, run_releaseCheckpoint hf]; rfl
  | workflowStart data => rw [handle_workflowStart, run_createWorkflow hf]; rfl
  | workflowStatus workflowId => rw [handle_workflowStatus, run_getWorkflow hf]
  | completeWorkflow data =>
      rcases handle_completeWorkflow_world hf w data with h | ⟨row, h⟩
      · rw [h]
      · rw [h]
        rfl

/-- The row of a position after a key request for it. -/
theorem handle_generate_checkpoints (data : CreateDurableIdempotencyKeyInput) :
    ((Request.generateIdempotencyKey data).handle env w).2 = w ∨
      w.checkpoints data.workflowId data.position = none ∧
        ((Request.generateIdempotencyKey data).handle env w).2 =
          w.setCheckpoint data.workflowId data.position
            { idempotencyKey := env.minted, value := none, createdAt := w.now } := by
  rw [handle_generateIdempotencyKey, run_createDurableIdempotencyKey hf]
  cases hrow : w.checkpoints data.workflowId data.position with
  | some row => exact .inl rfl
  | none =>
      cases w.fencingTokens data.workflowId with
      | none => exact .inl rfl
      | some stored =>
          dsimp only
          split
          · exact .inl rfl
          · exact .inr ⟨rfl, rfl⟩

/-- **What a request does to a row**: nothing, or it refreshes `created_at`, or
it inserts one — a value by a checkpoint, none by a key request. -/
theorem handle_checkpoints_cases {request : Request} (hu : request ≠ .cleanUp)
    (workflowId : String) (position : Int) :
    (request.handle env w).2.checkpoints workflowId position =
      w.checkpoints workflowId position ∨
      (∃ row, w.checkpoints workflowId position = some row ∧
        (request.handle env w).2.checkpoints workflowId position =
          some { row with createdAt := w.now }) ∨
      (w.checkpoints workflowId position = none ∧
        ((∃ data, request = .checkpoint data ∧ data.workflowId = workflowId ∧
            data.position = position ∧
            (∃ abort, (request.handle env w).1 = .ok (.checkpoint { abort := abort })) ∧
            (request.handle env w).2.checkpoints workflowId position = some (data.row w.now)) ∨
          ∃ data, request = .generateIdempotencyKey data ∧ data.workflowId = workflowId ∧
            data.position = position ∧
            (request.handle env w).2.checkpoints workflowId position =
              some { idempotencyKey := env.minted, value := none, createdAt := w.now })) := by
  by_cases hc : ∃ data, request = .checkpoint data
  · obtain ⟨data, rfl⟩ := hc
    by_cases heq : workflowId = data.workflowId ∧ position = data.position
    · obtain ⟨rfl, rfl⟩ := heq
      rw [handle_checkpoint_checkpoints hf]
      split
      · next hok =>
          cases hrow : w.checkpoints data.workflowId data.position with
          | some row => exact .inr (.inl ⟨row, rfl, rfl⟩)
          | none => exact .inr (.inr ⟨rfl, .inl ⟨data, rfl, rfl, rfl, hok, rfl⟩⟩)
      · exact .inl rfl
    · left
      rw [handle_checkpoint, run_handleCheckpoint hf]
      cases w.fencingTokens data.workflowId with
      | none => rfl
      | some stored =>
          dsimp only
          split
          · rfl
          · rw [World.setCheckpoint_checkpoints, if_neg heq]; rfl
  by_cases hg : ∃ data, request = .generateIdempotencyKey data
  · obtain ⟨data, rfl⟩ := hg
    rcases handle_generate_checkpoints hf w data with h | ⟨hrow, h⟩
    · rw [h]; exact .inl rfl
    · rw [h, World.setCheckpoint_checkpoints]
      by_cases heq : workflowId = data.workflowId ∧ position = data.position
      · obtain ⟨rfl, rfl⟩ := heq
        exact .inr (.inr ⟨hrow, .inr ⟨data, rfl, rfl, rfl, by simp⟩⟩)
      · exact .inl (if_neg heq)
  · left
    rw [handle_checkpoints_eq hf w (fun data h => hc ⟨data, h⟩) (fun data h => hg ⟨data, h⟩) hu]

/-- A stored key and value survive every request but cleanup. -/
theorem handle_row_persists {request : Request} (hu : request ≠ .cleanUp) {workflowId : String}
    {position : Int} {row : Checkpoint} (h : w.checkpoints workflowId position = some row) :
    ∃ createdAt, (request.handle env w).2.checkpoints workflowId position =
      some { row with createdAt := createdAt } := by
  rcases handle_checkpoints_cases hf w hu workflowId position with h' | ⟨row', hr, h'⟩ | ⟨hn, -⟩
  · exact ⟨row.createdAt, by rw [h', h]⟩
  · rw [h, Option.some.injEq] at hr
    subst hr
    exact ⟨w.now, h'⟩
  · rw [h] at hn; contradiction

end Rows

/-! ### tokens -/

section Tokens

variable {env : Env} (hf : env.fault = .none) (w : World)

include hf

/-- The tokens change only by a start, which raises its own, and by cleanup. -/
theorem handle_fencingTokens {request : Request} (hu : request ≠ .cleanUp) :
    (request.handle env w).2.fencingTokens =
      match request with
      | .workflowStart data => Function.update w.fencingTokens data.workflowId
          (some (upsertFencingToken (w.fencingTokens data.workflowId) 1))
      | _ => w.fencingTokens := by
  cases request with
  | workflowStart data => rw [handle_workflowStart, run_createWorkflow hf]; rfl
  | cleanUp => exact absurd rfl hu
  | checkpoint data =>
      rw [handle_checkpoint, run_handleCheckpoint hf]
      cases w.fencingTokens data.workflowId with
      | none => rfl
      | some stored =>
          dsimp only
          split <;> rfl
  | leaseCheckpoint data =>
      by_cases h : ((Request.leaseCheckpoint data).handle env w).1 = granted
      · rw [handle_leaseCheckpoint_of_granted hf w data h]; rfl
      · rw [handle_leaseCheckpoint_of_not_granted hf w data h]
  | releaseCheckpoint data => rw [handle_releaseCheckpoint, run_releaseCheckpoint hf]; rfl
  | workflowStatus workflowId => rw [handle_workflowStatus, run_getWorkflow hf]
  | completeWorkflow data =>
      rcases handle_completeWorkflow_world hf w data with h | ⟨row, h⟩
      · rw [h]
      · rw [h]
        rfl
  | generateIdempotencyKey data =>
      rcases handle_generate_checkpoints hf w data with h | ⟨-, h⟩
      · rw [h]
      · rw [h]; rfl

end Tokens

/-- No request moves the clock. -/
@[simp] theorem handle_now (env : Env) (request : Request) (w : World) :
    (request.handle env w).2.now = w.now :=
  Program.isolated_frame _ World.now (fun call w => StorageCall.exec_now env call w) _ w

end IdempotentTransformer
