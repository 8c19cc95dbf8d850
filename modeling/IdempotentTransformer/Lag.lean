import IdempotentTransformer.Client.Execute
import IdempotentTransformer.Interleaving

/-!
# IdempotentTransformer.Lag

The first lease request of a runner, answered by a node that has not
caught up.

A node answers reads from what it has applied: some prefix of the committed
log.  Writes go to the log, and the clock does not lag.  `execute` asks
once more where it is told that the workflow has no token, and nowhere else;
a prefix that still shows an older token, or rows of an earlier life of the
workflow, ends the call at once.

* `ends_iff` — with up-to-date reads the lease loop ends as the row, else the
  token, says;
* `lag_harmless_iff` — when a first answer from a prefix changes nothing.
-/

namespace IdempotentTransformer

open Library

/-! ## Reading from a prefix -/

/-- One storage call at a node that has applied `seen` of the log: reads are
answered from that, everything else from the current world. -/
def StorageCall.execBehind (seen : World) (env : Env) :
    (call : StorageCall) → World → call.Reply × World
  | .selectCheckpoint workflowId position, w =>
      (((StorageCall.selectCheckpoint workflowId position).exec env seen).1, w)
  | .selectFencingToken workflowId, w =>
      (((StorageCall.selectFencingToken workflowId).exec env seen).1, w)
  | .selectWorkflow id, w => (((StorageCall.selectWorkflow id).exec env seen).1, w)
  | .cacheGet key, w => (((StorageCall.cacheGet key).exec env seen).1, w)
  | call, w => call.exec env w

/-- Run a handler at such a node, with nobody else moving. -/
def Handler.runBehind {α : Type} (seen : World) (env : Env) (m : Handler α) (w : World) :
    Except HandlerError α × World :=
  Program.isolated (StorageCall.execBehind seen env) m.program w

/-- Handle a request at such a node. -/
def Request.handleBehind (seen : World) (env : Env) (request : Request) (w : World) :
    Except HandlerError Response × World :=
  request.handler.runBehind seen env w

section Behind

variable {α β : Type} (seen : World) (env : Env) (w : World)

@[simp] theorem Handler.runBehind_bind (m : Handler α) (f : α → Handler β) :
    (m >>= f).runBehind seen env w =
      match m.runBehind seen env w with
      | (.ok a, w') => (f a).runBehind seen env w'
      | (.error e, w') => (.error e, w') := Handler.isolated_bind ..

@[simp] theorem Handler.runBehind_join (a : Handler α) (b : Handler β) :
    (Handler.join a b).runBehind seen env w =
      (.ok ((a.runBehind seen env w).1, (b.runBehind seen env (a.runBehind seen env w).2).1),
        (b.runBehind seen env (a.runBehind seen env w).2).2) := Handler.isolated_join ..

@[simp] theorem Handler.runBehind_pure (a : α) :
    (pure a : Handler α).runBehind seen env w = (.ok a, w) := rfl

@[simp] theorem Handler.runBehind_fail (e : HandlerError) :
    (Handler.fail e : Handler α).runBehind seen env w = (.error e, w) := rfl

@[simp] theorem Handler.runBehind_ofResult (r : Except HandlerError α) :
    (Handler.ofResult r).runBehind seen env w = (r, w) := rfl

@[simp] theorem Handler.runBehind_lock (key : String) :
    (Handler.lock key).runBehind seen env w = (.ok (), w) := rfl

@[simp] theorem Handler.runBehind_dropGuard (key : String) :
    (Handler.dropGuard key).runBehind seen env w = (.ok (), w) := rfl

@[simp] theorem runBehind_returnErrorIfTrue (condition : Bool) (status : HandlerError) :
    (returnErrorIfTrue condition status).runBehind seen env w =
      (if condition then .error status else .ok (), w) := by
  cases condition <;> rfl

@[simp] theorem runBehind_diffLeaseExpiryFromNow (leased : LeasedCheckpointValue) :
    (diffLeaseExpiryFromNow leased).runBehind seen env w =
      (.ok (remainingLeaseTimeout leased w.now), w) := rfl

variable {env} (hf : env.fault = .none) (workflowId : String) (position : Int)

include hf

theorem runBehind_getCheckpoint :
    (getCheckpoint workflowId position).runBehind seen env w =
      (((getCheckpoint workflowId position).run env seen).1, w) := by
  obtain ⟨fault, minted, leader⟩ := env
  subst hf
  rfl

theorem runBehind_getLeasedCheckpoint :
    (getLeasedCheckpoint workflowId position).runBehind seen env w =
      (((getLeasedCheckpoint workflowId position).run env seen).1, w) := by
  obtain ⟨fault, minted, leader⟩ := env
  subst hf
  rfl

theorem runBehind_getWorkflowFencingToken :
    (getWorkflowFencingToken workflowId).runBehind seen env w =
      (((getWorkflowFencingToken workflowId).run env seen).1, w) := by
  obtain ⟨fault, minted, leader⟩ := env
  subst hf
  rfl

theorem runBehind_leaseCheckpoint (leaseTimeout : Int) :
    (leaseCheckpoint workflowId position leaseTimeout).runBehind seen env w =
      (leaseCheckpoint workflowId position leaseTimeout).run env w := by
  obtain ⟨fault, minted, leader⟩ := env
  subst hf
  rfl

end Behind

/-- The handler answers at a node that has applied `seen` as it would if that
were current, and what it writes leaves tokens and rows of the current world. -/
def Handler.Alike {α : Type} (seen : World) (env : Env) (w : World) (m : Handler α) : Prop :=
  (m.runBehind seen env w).1 = (m.run env seen).1 ∧
    (m.runBehind seen env w).2.fencingTokens = w.fencingTokens ∧
    (m.runBehind seen env w).2.checkpoints = w.checkpoints

section Alike

variable {env : Env} (hf : env.fault = .none) {seen w : World} (hnow : seen.now = w.now)
  (data : LeaseCheckpointInput)

include hf hnow

theorem alike_grantLease (token : Option Int) : (grantLease data token).Alike seen env w := by
  unfold Handler.Alike
  cases token with
  | none => exact ⟨rfl, rfl, rfl⟩
  | some stored =>
      by_cases hlt : data.fencingToken < stored
      · simp [grantLease, hlt]
      · by_cases heq : data.fencingToken = stored
        · simp [grantLease, heq, runBehind_leaseCheckpoint seen w hf,
            run_leaseCheckpoint hf, hnow]
        · simp [grantLease, hlt, heq]

theorem alike_leaseWithoutRow : (leaseWithoutRow data).Alike seen env w := by
  have hgrant := alike_grantLease hf hnow data (seen.fencingTokens data.workflowId)
  unfold Handler.Alike at hgrant ⊢
  simp only [leaseWithoutRow, Handler.runBehind_bind, Handler.runBehind_lock,
    Handler.runBehind_dropGuard, Handler.runBehind_join,
    runBehind_getLeasedCheckpoint seen w hf,
    runBehind_getWorkflowFencingToken seen w hf, Handler.runBehind_ofResult, Handler.run_bind,
    Handler.run_lock, Handler.run_dropGuard, Handler.run_join, run_getLeasedCheckpoint hf,
    run_getWorkflowFencingToken hf, Handler.run_ofResult]
  cases seen.leaseAt data.workflowId data.position with
  | none => exact hgrant
  | some leased =>
      simp only [Handler.runBehind_bind, runBehind_diffLeaseExpiryFromNow, Handler.run_bind,
        run_diffLeaseExpiryFromNow, hnow]
      split
      · exact ⟨rfl, rfl, rfl⟩
      · exact hgrant

theorem alike_handleLeaseCheckpoint : (handleLeaseCheckpoint data).Alike seen env w := by
  have hlease := alike_leaseWithoutRow hf hnow data
  unfold Handler.Alike at hlease ⊢
  rw [handleLeaseCheckpoint_eq, Handler.runBehind_bind, Handler.run_bind,
    runBehind_getCheckpoint seen w hf, run_getCheckpoint hf]
  cases seen.checkpoints data.workflowId data.position with
  | none => exact hlease
  | some row =>
      by_cases hk : row.idempotencyKey = data.idempotencyKey
      · cases hv : row.value <;> simp [answerFromRow, hk, hv]
      · simp [answerFromRow, hk]

/-- **A node that lags answers a lease request as if it did not.** -/
theorem handleBehind_leaseCheckpoint :
    ((Request.leaseCheckpoint data).handleBehind seen env w).1 =
        ((Request.leaseCheckpoint data).handle env seen).1 ∧
      ((Request.leaseCheckpoint data).handleBehind seen env w).2.fencingTokens =
        w.fencingTokens ∧
      ((Request.leaseCheckpoint data).handleBehind seen env w).2.checkpoints =
        w.checkpoints := by
  obtain ⟨hreply, htokens, hrows⟩ := alike_handleLeaseCheckpoint hf hnow data
  rw [handle_leaseCheckpoint, ← hreply, Request.handleBehind, Request.handler,
    Handler.runBehind_bind]
  rw [← htokens, ← hrows]
  cases (handleLeaseCheckpoint data).runBehind seen env w with
  | mk r w' => cases r <;> exact ⟨rfl, rfl, rfl⟩

end Alike

/-! ## The lease loop -/

/-- How the lease loop of an `execute` ends. -/
inductive LeaseEnd
  /-- The task starts. -/
  | granted
  /-- A stored result goes to the serializer. -/
  | found (value : TSerialized)
  | thrown (err : Thrown)
deriving DecidableEq, Repr

def Phase.leaseEnd? {V : Type} : Phase V → Option LeaseEnd
  | .running _ => some .granted
  | .deserializing value _ => some (.found value)
  | .thrown err => some (.thrown err)
  | _ => none

/-- What a lease request of the call asks for. -/
def ExecuteCall.leaseInput (c : ExecuteCall) (r : Runner) : LeaseCheckpointInput :=
  { workflowId := r.workflowId, fencingToken := r.fencingToken, position := r.position,
    leaseTimeout := c.options.leaseMilliseconds, idempotencyKey := c.idempotencyKey }

/-- An `execute` in its lease loop, and the stored world. -/
structure LeaseLoop (V : Type) where
  world : World
  phase : Phase V

inductive LeaseLabel
  /-- The lease request is handled and its reply arrives, when `Date.now()`
  shows `now`. -/
  | answer (env : Env) (now : Int)
  /-- The timer of `waitFor` fires. -/
  | wake
  /-- The clock advances. -/
  | tick (elapsed : Nat)
  /-- The cache drops an entry. -/
  | evict (key : String)

section Loop

variable {V : Type} (evictable : CachedLease → Int → Bool) (c : ExecuteCall) (r : Runner)

namespace LeaseLoop

/-- The call goes on from the reply to its lease request. -/
def goOn (k : Nat) (outcome : Except HandlerError Response × World) (now : Int) :
    Option (LeaseLoop V) :=
  (GrpcAdapter.settle outcome.1).bind fun settled =>
    (ExecuteCall.resume c r (.leasing k) (.reply settled now)).map fun turn =>
      { world := outcome.2, phase := turn.phase }

/-- One step of the loop, all reads up to date. -/
def step : Step (LeaseLoop V) LeaseLabel
  | s, .answer env now =>
    match s.phase with
    | .leasing k =>
        if env.fault = .none then
          goOn c r k ((Request.leaseCheckpoint (c.leaseInput r)).handle env s.world) now
        else none
    | _ => none
  | s, .wake =>
    match s.phase with
    | .waiting milliseconds k =>
        (ExecuteCall.resume c r (.waiting milliseconds k) .wake).map fun turn =>
          { s with phase := turn.phase }
    | _ => none
  | s, .tick elapsed => some { s with world := s.world.tick elapsed }
  | s, .evict key => (s.world.evict evictable key).map fun w => { s with world := w }

/-- The loop can end so. -/
def Ends (s : LeaseLoop V) (e : LeaseEnd) : Prop :=
  ∃ s', Reachable (step evictable c r) anyStep (· = s) s' ∧ s'.phase.leaseEnd? = some e

/-- The loop can end so where the first request is answered by a node that has
applied `seen`. -/
def EndsBehind (V : Type) (seen w : World) (e : LeaseEnd) : Prop :=
  ∃ (env : Env) (now : Int) (s : LeaseLoop V), env.fault = .none ∧
    goOn c r 0 ((Request.leaseCheckpoint (c.leaseInput r)).handleBehind seen env w)
      now = some s ∧
    Ends evictable c r s e

/-- The call waits for an answer, or to ask again. -/
def Pending (s : LeaseLoop V) : Prop :=
  (∃ k, s.phase = .leasing k) ∨ ∃ milliseconds k, s.phase = .waiting milliseconds k

end LeaseLoop

/-- A handler's own error reaches the client by its text. -/
theorem settle_io (kind : ErrorKind) {message : String} (h : message ≠ "") :
    GrpcAdapter.settle (.error (.io kind message)) = some (.error (.error message)) := by
  cases kind <;>
    simp [GrpcAdapter.settle, rpcResponse, toStatus, Status.serviceError,
      GrpcAdapter.handleError, h]

/-! ## What the tables say -/

/-- How the loop ends on a row. -/
def rowEnd (row : Checkpoint) (idempotencyKey : String) : LeaseEnd :=
  if row.idempotencyKey ≠ idempotencyKey then
    .thrown (.error "non_deterministic_checkpoint_found")
  else
    match row.value with
    | none => .thrown (.error "checkpoint_value_not_found")
    | some value => .found (.bytes value)

/-- How the loop ends on a token, where there is no row. -/
def tokenEnd (stored fencingToken : Int) : LeaseEnd :=
  if fencingToken < stored then .thrown (.error "fencing_token_expired")
  else if fencingToken = stored then .granted
  else .thrown (.error "unexpected state")

/-- How the loop ends: the row decides, else the token. -/
def World.leaseEnd (w : World) : LeaseEnd :=
  match w.checkpoints r.workflowId r.position with
  | some row => rowEnd row c.idempotencyKey
  | none =>
    match w.fencingTokens r.workflowId with
    | some stored => tokenEnd stored r.fencingToken
    | none => .thrown (.error "fencing_token_not_found")

/-- A lease keeps the call waiting. -/
def World.Polls (w : World) : Prop :=
  w.checkpoints r.workflowId r.position = none ∧ w.activeLease r.workflowId r.position ≠ none

/-- The workflow has no token yet, and the call asks once more. -/
def World.Retries (w : World) (k : Nat) : Prop :=
  w.checkpoints r.workflowId r.position = none ∧ w.activeLease r.workflowId r.position = none ∧
    w.fencingTokens r.workflowId = none ∧ r.position = 0 ∧ k < 1

namespace LeaseLoop

variable {c r}

section Answers

variable {outcome : Except HandlerError Response × World} (k : Nat) (now : Int)

theorem goOn_value {value : Bytes}
    (h : outcome.1 = .ok (.leaseCheckpoint { response := some (.CheckpointValue value) })) :
    (goOn c r k outcome now : Option (LeaseLoop V)) =
      some { world := outcome.2, phase := .deserializing (.bytes value) k } := by
  simp [goOn, h, GrpcAdapter.settle, rpcResponse, GrpcAdapter.reply, GrpcAdapter.leaseReply,
    ExecuteCall.resume, ExecuteCall.leaseReplied, TSerialized.truthy, Option.filter]

theorem goOn_remaining {remaining : Int} (hne : remaining ≠ 0)
    (h : outcome.1 =
      .ok (.leaseCheckpoint { response := some (.RemainingLeaseTimeout remaining) })) :
    (goOn c r k outcome now : Option (LeaseLoop V)) =
      some { world := outcome.2, phase := .waiting (remaining / 10) k } := by
  simp [goOn, h, GrpcAdapter.settle, rpcResponse, GrpcAdapter.reply, GrpcAdapter.leaseReply,
    ExecuteCall.resume, ExecuteCall.leaseReplied, TSerialized.truthy, Option.filter, hne]

theorem goOn_granted (h : outcome.1 = granted) :
    (goOn c r k outcome now : Option (LeaseLoop V)) =
      some { world := outcome.2, phase := .running now } := by
  simp [goOn, h, granted, GrpcAdapter.settle, rpcResponse, GrpcAdapter.reply,
    GrpcAdapter.leaseReply, ExecuteCall.resume, ExecuteCall.leaseReplied, TSerialized.truthy,
    Option.filter]

theorem goOn_error {kind : ErrorKind} {message : String} (hm : message ≠ "")
    (hne : message ≠ ErrCodes.FencingTokenNotFound.text)
    (h : outcome.1 = .error (.io kind message)) :
    (goOn c r k outcome now : Option (LeaseLoop V)) =
      some { world := outcome.2, phase := .thrown (.error message) } := by
  simp [goOn, h, settle_io kind hm, ExecuteCall.resume, ExecuteCall.leaseFailed,
    Thrown.message?, hne]

/-- A missing token is asked for once more, at the first position. -/
theorem goOn_notFound
    (h : outcome.1 = .error (.io .InvalidData ErrCodes.FencingTokenNotFound.text)) :
    (goOn c r k outcome now : Option (LeaseLoop V)) =
      some { world := outcome.2
             phase := if r.position = 0 ∧ k < 1 then .waiting 100 (k + 1)
               else .thrown (.error ErrCodes.FencingTokenNotFound.text) } := by
  have hm : ErrCodes.FencingTokenNotFound.text ≠ "" := by decide
  simp only [goOn, h, settle_io _ hm, Option.bind_some, ExecuteCall.resume,
    ExecuteCall.leaseFailed, Thrown.message?, true_and, Option.map_some]
  split <;> rfl

end Answers

/-- **What one answer does**: it ends the loop as the tables say, or a lease or a
missing token keeps the call waiting. -/
theorem goOn_cases {env : Env} (hf : env.fault = .none) {seen : World}
    {outcome : Except HandlerError Response × World}
    (hreply : outcome.1 = ((Request.leaseCheckpoint (c.leaseInput r)).handle env seen).1)
    (k : Nat) (now : Int) :
    ∃ s : LeaseLoop V, goOn c r k outcome now = some s ∧ s.world = outcome.2 ∧
      ((¬ seen.Polls r ∧ ¬ seen.Retries r k ∧
          s.phase.leaseEnd? = some (seen.leaseEnd c r)) ∨
        (seen.Polls r ∧ ∃ milliseconds, s.phase = .waiting milliseconds k) ∨
        (seen.Retries r k ∧ s.phase = .waiting 100 (k + 1))) := by
  rw [handle_leaseCheckpoint, run_handleLeaseCheckpoint hf] at hreply
  simp only [ExecuteCall.leaseInput] at hreply
  unfold World.Polls World.Retries World.leaseEnd
  cases hrow : seen.checkpoints r.workflowId r.position with
  | some row =>
      simp only [hrow] at hreply
      by_cases hk : row.idempotencyKey = c.idempotencyKey
      · cases hv : row.value with
        | none =>
            simp only [hk, ne_eq, not_true_eq_false, if_false, hv] at hreply
            refine ⟨_, goOn_error k now (by decide) (by decide) hreply, rfl, .inl ?_⟩
            simp [rowEnd, hk, hv, Phase.leaseEnd?]
        | some value =>
            simp only [hk, ne_eq, not_true_eq_false, if_false, hv] at hreply
            refine ⟨_, goOn_value k now hreply, rfl, .inl ?_⟩
            simp [rowEnd, hk, hv, Phase.leaseEnd?]
      · simp only [ne_eq, hk, not_false_eq_true, if_true] at hreply
        refine ⟨_, goOn_error k now (by decide) (by decide) hreply, rfl, .inl ?_⟩
        simp [rowEnd, hk, Phase.leaseEnd?]
  | none =>
      simp only [hrow] at hreply
      cases hlease : seen.activeLease r.workflowId r.position with
      | some leased =>
          simp only [hlease] at hreply
          have hne : remainingLeaseTimeout leased seen.now ≠ 0 := by
            have hlive := (Option.mem_filter_iff.mp hlease).2
            intro hzero
            simp [LeasedCheckpointValue.Expired, hzero] at hlive
          exact ⟨_, goOn_remaining k now hne hreply, rfl, .inr (.inl ⟨⟨rfl, nofun⟩, _, rfl⟩)⟩
      | none =>
          simp only [hlease] at hreply
          cases htoken : seen.fencingTokens r.workflowId with
          | none =>
              simp only [htoken] at hreply
              refine ⟨_, goOn_notFound k now hreply, rfl, ?_⟩
              by_cases hretry : r.position = 0 ∧ k < 1
              · exact .inr (.inr ⟨⟨rfl, rfl, rfl, hretry⟩, if_pos hretry⟩)
              · refine .inl ⟨fun h => h.2 rfl, fun h => hretry h.2.2.2, ?_⟩
                rw [if_neg hretry]
                rfl
          | some stored =>
              simp only [htoken] at hreply
              by_cases hlt : r.fencingToken < stored
              · simp only [hlt, if_true] at hreply
                refine ⟨_, goOn_error k now (by decide) (by decide) hreply, rfl, .inl ?_⟩
                simp [tokenEnd, hlt, Phase.leaseEnd?]
              · by_cases heq : r.fencingToken = stored
                · simp only [hlt, if_false] at hreply
                  simp only [heq, if_true] at hreply
                  refine ⟨_, goOn_granted k now hreply, rfl, .inl ?_⟩
                  simp [tokenEnd, heq, Phase.leaseEnd?]
                · simp only [hlt, if_false, heq] at hreply
                  refine ⟨_, goOn_error k now (by decide) (by decide) hreply, rfl, .inl ?_⟩
                  simp [tokenEnd, hlt, heq, Phase.leaseEnd?]

/-! ### up-to-date reads -/

/-- The tables the loop reads are those of `w`. -/
def SameTables (w : World) (s : LeaseLoop V) : Prop :=
  s.world.checkpoints = w.checkpoints ∧ s.world.fencingTokens = w.fencingTokens

theorem SameTables.leaseEnd_eq {w : World} {s : LeaseLoop V} (h : SameTables w s) :
    s.world.leaseEnd c r = w.leaseEnd c r := by
  simp only [World.leaseEnd, h.1, h.2]

/-- A lease request changes no row and no token. -/
theorem handle_leaseCheckpoint_tables {env : Env} (hf : env.fault = .none) (w : World)
    (data : LeaseCheckpointInput) :
    ((Request.leaseCheckpoint data).handle env w).2.checkpoints = w.checkpoints ∧
      ((Request.leaseCheckpoint data).handle env w).2.fencingTokens = w.fencingTokens := by
  by_cases hg : ((Request.leaseCheckpoint data).handle env w).1 = granted
  · rw [handle_leaseCheckpoint_of_granted hf w data hg]
    exact ⟨rfl, rfl⟩
  · rw [handle_leaseCheckpoint_of_not_granted hf w data hg]
    exact ⟨rfl, rfl⟩

/-- An up-to-date answer, given. -/
theorem exists_answer {s : LeaseLoop V} {k : Nat} (hp : s.phase = .leasing k) {env : Env}
    (hf : env.fault = .none) (now : Int) :
    ∃ s', step evictable c r s (.answer env now) = some s' ∧ SameTables s.world s' ∧
      ((¬ s.world.Polls r ∧ ¬ s.world.Retries r k ∧
          s'.phase.leaseEnd? = some (s.world.leaseEnd c r)) ∨
        (s.world.Polls r ∧ ∃ milliseconds, s'.phase = .waiting milliseconds k) ∨
        (s.world.Retries r k ∧ s'.phase = .waiting 100 (k + 1))) := by
  have hreply : ((Request.leaseCheckpoint (c.leaseInput r)).handle env s.world).1 =
      ((Request.leaseCheckpoint (c.leaseInput r)).handle env s.world).1 := rfl
  obtain ⟨s', hs', hworld, hcases⟩ := goOn_cases (V := V) hf hreply k now
  refine ⟨s', ?_, ?_, hcases⟩
  · simp only [step, hp, hf, if_true, hs']
  · rw [SameTables, hworld]
    exact handle_leaseCheckpoint_tables hf s.world _

/-- The call still waits, or the loop has ended as the tables of `w` say. -/
def Towards (c : ExecuteCall) (r : Runner) (w : World) (s : LeaseLoop V) : Prop :=
  SameTables w s ∧ (s.Pending ∨ s.phase.leaseEnd? = some (w.leaseEnd c r))

variable {evictable} {s s' : LeaseLoop V} {w : World}

theorem towards_step {l : LeaseLabel} (h : Towards c r w s)
    (hs : step evictable c r s l = some s') : Towards c r w s' := by
  obtain ⟨htables, hphase⟩ := h
  cases l with
  | answer env now =>
      cases hp : s.phase with
      | leasing k =>
          have hf : env.fault = .none := by
            by_contra hf
            simp [step, hp, hf] at hs
          obtain ⟨s₁, hs₁, htables₁, hcases⟩ := exists_answer evictable hp hf now
          rw [hs, Option.some.injEq] at hs₁
          subst hs₁
          refine ⟨⟨htables₁.1.trans htables.1, htables₁.2.trans htables.2⟩, ?_⟩
          rcases hcases with ⟨-, -, hend⟩ | ⟨-, milliseconds, hwait⟩ | ⟨-, hwait⟩
          · right
            rw [hend, htables.leaseEnd_eq]
          · exact .inl (.inr ⟨milliseconds, k, hwait⟩)
          · exact .inl (.inr ⟨100, k + 1, hwait⟩)
      | _ => simp [step, hp] at hs
  | wake =>
      cases hp : s.phase with
      | waiting milliseconds k =>
          simp only [step, hp, ExecuteCall.resume, Option.map_some, Option.some.injEq] at hs
          subst hs
          exact ⟨htables, .inl (.inl ⟨k, rfl⟩)⟩
      | _ => simp [step, hp] at hs
  | tick elapsed =>
      cases hs
      exact ⟨htables, hphase⟩
  | evict key =>
      simp only [step, Option.map_eq_some_iff] at hs
      obtain ⟨w', hw', rfl⟩ := hs
      obtain ⟨entry, -, -, rfl⟩ := World.evict_eq_some hw'
      exact ⟨htables, hphase⟩

theorem Ends.of_step {l : LeaseLabel} {e : LeaseEnd} (hs : step evictable c r s l = some s')
    (h : Ends evictable c r s' e) : Ends evictable c r s e := by
  obtain ⟨s'', hr, hend⟩ := h
  have hone : Reachable (step evictable c r) anyStep (· = s) s' :=
    .step (.start rfl) trivial hs
  exact ⟨s'', hone.trans hr, hend⟩

/-- In time no lease is in force. -/
theorem exists_tick (w : World) (workflowId : String) (position : Int) :
    ∃ elapsed, (w.tick elapsed).activeLease workflowId position = none := by
  cases hlease : w.leaseAt workflowId position with
  | none =>
      refine ⟨0, World.activeLease_eq_none_iff.mpr fun lease h => ?_⟩
      rw [show (w.tick 0).leaseAt workflowId position = none from hlease] at h
      cases h
  | some lease =>
      refine ⟨(saturatingAdd lease.createdAt lease.leaseTimeout - w.now).toNat,
        World.activeLease_eq_none_iff.mpr fun lease' h => ?_⟩
      obtain rfl : lease = lease' := Option.some.inj (hlease.symm.trans h)
      simp only [LeasedCheckpointValue.expired_iff, World.tick]
      omega

/-- The loop can end as the tables say: once no lease is in force, by the next
answer, or by the one after it where the token is missing. -/
theorem ends_of_leasing {s : LeaseLoop V} {k : Nat} (hp : s.phase = .leasing k) :
    Ends evictable c r s (s.world.leaseEnd c r) := by
  obtain ⟨elapsed, hlease⟩ := exists_tick s.world r.workflowId r.position
  refine Ends.of_step (l := .tick elapsed) rfl ?_
  have hcalm : (Env.calm "" true).fault = .none := rfl
  obtain ⟨s', hs', htables, hcases⟩ :=
    exists_answer (s := { s with world := s.world.tick elapsed })
    evictable (c := c) (r := r) hp hcalm 0
  rcases hcases with ⟨-, -, hend⟩ | ⟨hpolls, -⟩ | ⟨hretries, hwait⟩
  · exact ⟨s', .step (.start rfl) trivial hs', hend⟩
  · exact absurd hlease hpolls.2
  · have hwake : step evictable c r s' .wake = some { s' with phase := .leasing (k + 1) } := by
      simp [step, hwait, ExecuteCall.resume, ExecuteCall.lease]
    have hk : k < 1 := hretries.2.2.2.2
    have hlast : Ends evictable c r { s' with phase := .leasing (k + 1) }
        (s'.world.leaseEnd c r) := ends_of_leasing rfl
    rw [htables.leaseEnd_eq] at hlast
    exact .of_step hs' (.of_step hwake hlast)
termination_by 1 - k

theorem ends_of_pending (hp : s.Pending) : Ends evictable c r s (s.world.leaseEnd c r) := by
  rcases hp with ⟨k, hp⟩ | ⟨milliseconds, k, hp⟩
  · exact ends_of_leasing hp
  · have hwake : step evictable c r s .wake = some { s with phase := .leasing k } := by
      simp [step, hp, ExecuteCall.resume, ExecuteCall.lease]
    exact .of_step hwake (ends_of_leasing (s := { s with phase := .leasing k }) rfl)

/-- **With up-to-date reads the loop ends, and only as the tables say.** -/
theorem ends_iff (hp : s.Pending) (e : LeaseEnd) :
    Ends evictable c r s e ↔ e = s.world.leaseEnd c r := by
  constructor
  · rintro ⟨s', hr, hend⟩
    have htowards : Towards c r s.world s' := by
      refine hr.invariant (Towards c r s.world) ?_ fun _ _ _ h _ hs => towards_step h hs
      rintro _ rfl
      exact ⟨⟨rfl, rfl⟩, .inl hp⟩
    rcases htowards.2 with (⟨k, hwait⟩ | ⟨milliseconds, k, hwait⟩) | hend'
    · rw [hwait] at hend
      cases hend
    · rw [hwait] at hend
      cases hend
    · rw [hend, Option.some.injEq] at hend'
      exact hend'
  · rintro rfl
    exact ends_of_pending hp

/-- A loop that has ended stays so. -/
theorem ends_iff_of_ended {e₀ : LeaseEnd} (hp : s.phase.leaseEnd? = some e₀) (e : LeaseEnd) :
    Ends evictable c r s e ↔ e = e₀ := by
  constructor
  · rintro ⟨s', hr, hend⟩
    have hsame : s'.phase.leaseEnd? = some e₀ := by
      refine hr.invariant (fun s' => s'.phase.leaseEnd? = some e₀) (fun _ h => h ▸ hp) ?_
      intro s₁ l s₂ h _ hs
      cases l with
      | answer env now =>
          cases hp : s₁.phase with
          | leasing k => simp [hp, Phase.leaseEnd?] at h
          | _ => simp [step, hp] at hs
      | wake =>
          cases hp : s₁.phase with
          | waiting milliseconds k => simp [hp, Phase.leaseEnd?] at h
          | _ => simp [step, hp] at hs
      | tick elapsed =>
          cases hs
          exact h
      | evict key =>
          simp only [step, Option.map_eq_some_iff] at hs
          obtain ⟨w', -, rfl⟩ := hs
          exact h
    rw [hend, Option.some.injEq] at hsame
    exact hsame
  · rintro rfl
    exact ⟨s, .start rfl, hp⟩

/-! ### a first answer from a prefix -/

/-- **A first answer from a prefix** ends the loop as the prefix says, unless it
keeps the call waiting for an up-to-date one. -/
theorem endsBehind_iff {seen : World} (hnow : seen.now = w.now) (e : LeaseEnd) :
    EndsBehind evictable c r V seen w e ↔
      (seen.Polls r ∨ seen.Retries r 0) ∧ e = w.leaseEnd c r ∨
        ¬ (seen.Polls r ∨ seen.Retries r 0) ∧ e = seen.leaseEnd c r := by
  have hgoOn : ∀ (env : Env) (now : Int), env.fault = .none → ∃ s : LeaseLoop V,
      goOn c r 0 ((Request.leaseCheckpoint (c.leaseInput r)).handleBehind seen env w)
        now = some s ∧
        (Ends evictable c r s e ↔
          (seen.Polls r ∨ seen.Retries r 0) ∧ e = w.leaseEnd c r ∨
            ¬ (seen.Polls r ∨ seen.Retries r 0) ∧ e = seen.leaseEnd c r) := by
    intro env now hf
    obtain ⟨hreply, htokens, hrows⟩ := handleBehind_leaseCheckpoint hf hnow (c.leaseInput r)
    obtain ⟨s, hs, hworld, hcases⟩ := goOn_cases (V := V) hf hreply 0 now
    refine ⟨s, hs, ?_⟩
    have htables : SameTables w s := by
      rw [SameTables, hworld]
      exact ⟨hrows, htokens⟩
    rcases hcases with ⟨hpolls, hretries, hend⟩ | ⟨hpolls, milliseconds, hwait⟩ |
      ⟨hretries, hwait⟩
    · rw [ends_iff_of_ended hend]
      simp [hpolls, hretries]
    · rw [ends_iff (.inr ⟨milliseconds, 0, hwait⟩), htables.leaseEnd_eq]
      simp [hpolls]
    · rw [ends_iff (.inr ⟨100, 1, hwait⟩), htables.leaseEnd_eq]
      simp [hretries]
  constructor
  · rintro ⟨env, now, s, hf, hs, hends⟩
    obtain ⟨s', hs', hiff⟩ := hgoOn env now hf
    rw [hs, Option.some.injEq] at hs'
    subst hs'
    exact hiff.mp hends
  · intro h
    obtain ⟨s, hs, hiff⟩ := hgoOn (.calm "" true) 0 rfl
    exact ⟨_, 0, s, rfl, hs, hiff.mpr h⟩

end LeaseLoop

/-- What a prefix shows is what the current tables hold: both have a row, both
under the call's key with one value or both under another, or neither has one
and the two tokens stand alike to the runner's. -/
def World.ShowsAlike (seen w : World) : Prop :=
  match seen.checkpoints r.workflowId r.position, w.checkpoints r.workflowId r.position with
  | some row, some row' =>
      (row.idempotencyKey = c.idempotencyKey ↔ row'.idempotencyKey = c.idempotencyKey) ∧
        (row.idempotencyKey = c.idempotencyKey → row.value = row'.value)
  | none, none =>
      ∃ stored stored', seen.fencingTokens r.workflowId = some stored ∧
        w.fencingTokens r.workflowId = some stored' ∧
        (r.fencingToken < stored ↔ r.fencingToken < stored') ∧
        (r.fencingToken = stored ↔ r.fencingToken = stored')
  | _, _ => False

variable {c r}

theorem rowEnd_eq_iff (row row' : Checkpoint) (key : String) :
    rowEnd row key = rowEnd row' key ↔
      (row.idempotencyKey = key ↔ row'.idempotencyKey = key) ∧
        (row.idempotencyKey = key → row.value = row'.value) := by
  by_cases hk : row.idempotencyKey = key
  · by_cases hk' : row'.idempotencyKey = key
    · cases hv : row.value <;> cases hv' : row'.value <;> simp [rowEnd, hk, hk', hv, hv']
    · cases hv : row.value <;> simp [rowEnd, hk, hk', hv]
  · by_cases hk' : row'.idempotencyKey = key
    · cases hv' : row'.value <;> simp [rowEnd, hk, hk', hv']
    · simp [rowEnd, hk, hk']

theorem tokenEnd_eq_iff (stored stored' token : Int) :
    tokenEnd stored token = tokenEnd stored' token ↔
      (token < stored ↔ token < stored') ∧ (token = stored ↔ token = stored') := by
  unfold tokenEnd
  split_ifs <;> simp <;> omega

theorem rowEnd_ne_tokenEnd (row : Checkpoint) (key : String) (stored token : Int) :
    rowEnd row key ≠ tokenEnd stored token := by
  unfold rowEnd tokenEnd
  cases row.value <;> split_ifs <;> simp

theorem rowEnd_ne_notFound (row : Checkpoint) (key : String) :
    rowEnd row key ≠ .thrown (.error "fencing_token_not_found") := by
  unfold rowEnd
  cases row.value <;> split_ifs <;> simp

theorem tokenEnd_ne_notFound (stored token : Int) :
    tokenEnd stored token ≠ .thrown (.error "fencing_token_not_found") := by
  unfold tokenEnd
  split_ifs <;> simp

/-- A prefix that shows a row or a token ends the loop as the current tables
would exactly when it shows what they hold. -/
theorem leaseEnd_eq_iff {seen w : World}
    (h : seen.checkpoints r.workflowId r.position = none →
      seen.fencingTokens r.workflowId ≠ none) :
    seen.leaseEnd c r = w.leaseEnd c r ↔ seen.ShowsAlike c r w := by
  unfold World.leaseEnd World.ShowsAlike
  cases hrow : seen.checkpoints r.workflowId r.position with
  | some row =>
      cases w.checkpoints r.workflowId r.position with
      | some row' => exact rowEnd_eq_iff row row' c.idempotencyKey
      | none =>
          cases w.fencingTokens r.workflowId with
          | none => simp [rowEnd_ne_notFound]
          | some stored' => simp [rowEnd_ne_tokenEnd]
  | none =>
      obtain ⟨stored, hstored⟩ := Option.ne_none_iff_exists'.mp (h hrow)
      rw [hstored]
      cases w.checkpoints r.workflowId r.position with
      | some row' =>
          simp [(rowEnd_ne_tokenEnd row' c.idempotencyKey stored r.fencingToken).symm]
      | none =>
          cases w.fencingTokens r.workflowId with
          | none => simp [tokenEnd_ne_notFound]
          | some stored' => simp [tokenEnd_eq_iff]

end Loop

/-! ## Runs -/

/-- A start has returned the runner's token, and a node of the run has applied
only what had been committed at some earlier point of it. -/
structure Handlers.Lagging (evictable : CachedLease → Int → Bool) (P : Handlers) (r : Runner)
    (seen : World) : Prop where
  behind : ∃ P₀ : Handlers, P₀.Reached evictable ∧
    Reachable (Pool.step (serverMachine evictable)) anyStep (· = P₀) P ∧
    P₀.shared.Drifts evictable seen
  now : seen.now = P.shared.now
  started : ∃ pid p data, P.procs pid = some p ∧ p.tag = .workflowStart data ∧
    data.workflowId = r.workflowId ∧
    answer p = some (.ok (.workflowStart { fencingToken := r.fencingToken }))
  first : r.position = 0

/-- **When lag after a start is harmless**: the first execute, its first lease
request answered from a prefix of the log, ends its lease loop as with
up-to-date reads exactly when the prefix shows no row and either a lease in
force or no token, or shows what the current tables hold. -/
theorem lag_harmless_iff {V : Type} {evictable : CachedLease → Int → Bool} {P : Handlers}
    {r : Runner} {seen : World} (h : P.Lagging evictable r seen) (c : ExecuteCall) :
    (∀ e, LeaseLoop.EndsBehind evictable c r V seen P.shared e ↔
        LeaseLoop.Ends evictable c r
          ({ world := P.shared, phase := .leasing 0 } : LeaseLoop V) e) ↔
      (seen.checkpoints r.workflowId r.position = none ∧
          (seen.activeLease r.workflowId r.position ≠ none ∨
            seen.fencingTokens r.workflowId = none)) ∨
        seen.ShowsAlike c r P.shared := by
  have hwaits : (seen.Polls r ∨ seen.Retries r 0) ↔
      seen.checkpoints r.workflowId r.position = none ∧
        (seen.activeLease r.workflowId r.position ≠ none ∨
          seen.fencingTokens r.workflowId = none) := by
    constructor
    · rintro (⟨hrow, hlease⟩ | ⟨hrow, -, htoken, -⟩)
      · exact ⟨hrow, .inl hlease⟩
      · exact ⟨hrow, .inr htoken⟩
    · rintro ⟨hrow, hshows⟩
      by_cases hlease : seen.activeLease r.workflowId r.position = none
      · exact .inr ⟨hrow, hlease, hshows.resolve_left (absurd hlease), h.first, by omega⟩
      · exact .inl ⟨hrow, hlease⟩
  have hcurrent : ∀ e, LeaseLoop.Ends evictable c r
      ({ world := P.shared, phase := .leasing 0 } : LeaseLoop V) e ↔
        e = P.shared.leaseEnd c r := LeaseLoop.ends_iff (.inl ⟨0, rfl⟩)
  simp only [LeaseLoop.endsBehind_iff h.now, hcurrent, hwaits]
  by_cases hw : seen.checkpoints r.workflowId r.position = none ∧
      (seen.activeLease r.workflowId r.position ≠ none ∨ seen.fencingTokens r.workflowId = none)
  · simp [hw]
  · have hshown : seen.checkpoints r.workflowId r.position = none →
        seen.fencingTokens r.workflowId ≠ none := fun hrow htoken => hw ⟨hrow, .inr htoken⟩
    rw [← leaseEnd_eq_iff hshown]
    simp only [hw, false_and, not_false_eq_true, true_and, false_or]
    exact ⟨fun h => (h _).mp rfl, fun h e => by rw [h]⟩

/-! ## Concrete runs -/

/-- The prefix of a run that goes on to another. -/
theorem lagging_of_runLabels {P₀ P : Handlers} {ls ls' : List (Pool.Label Request Env Drift)}
    (h₀ : runLabels ls = some P₀) (h : runLabels (ls ++ ls') = some P) {r : Runner} {pid : Nat}
    (hnow : P₀.shared.now = P.shared.now)
    (hstarted : (P.procs pid).map (fun p => (p.tag, answer p)) =
      some (.workflowStart { workflowId := r.workflowId, name := none },
        some (.ok (.workflowStart { fencingToken := r.fencingToken }))))
    (hfirst : r.position = 0) : P.Lagging leaseExpired r P₀.shared := by
  obtain ⟨p, hp, hpair⟩ := Option.map_eq_some_iff.mp hstarted
  obtain ⟨htag, hans⟩ := Prod.mk.inj hpair
  have hgoes : Reachable (Pool.step (serverMachine leaseExpired)) anyStep (· = P₀) P :=
    Reachable.of_exec (.start rfl) (runLabels_append h₀ h)
  exact { behind := ⟨P₀, reached_of_runLabels h₀, hgoes, .refl _⟩, now := hnow,
          started := ⟨pid, p, _, hp, htag, rfl, hans⟩, first := hfirst }

/-- A task of a payment. -/
def payExecute : ExecuteCall :=
  { idempotencyKey := "k", options := { leaseTimeout := none, onAbort := none } }

/-- The first start of a workflow may be lagged behind. -/
theorem first_start_lag_harmless :
    ∃ P₀ P : Handlers, P.Lagging leaseExpired (Runner.start "pay" none 1) P₀.shared ∧
      ∀ e, LeaseLoop.EndsBehind leaseExpired payExecute
        (Runner.start "pay" none 1) Unit P₀.shared
          P.shared e ↔
        LeaseLoop.Ends leaseExpired payExecute (Runner.start "pay" none 1)
          ({ world := P.shared, phase := .leasing 0 } : LeaseLoop Unit) e := by
  obtain ⟨P₀, h₀⟩ : ∃ P₀, runLabels [] = some P₀ := ⟨_, rfl⟩
  obtain ⟨P, h⟩ : ∃ P, runLabels ([] ++ arrives 0 payStart 5) = some P :=
    Option.isSome_iff_exists.mp (by decide +kernel)
  have hempty : (P₀.shared.now, P₀.shared.checkpoints "pay" 0, P₀.shared.fencingTokens "pay") =
      (0, none, none) :=
        eq_of_runLabels h₀ (fun P => (P.shared.now, P.shared.checkpoints "pay" 0,
        P.shared.fencingTokens "pay")) (by decide +kernel)
  have hnow : P.shared.now = 0 := eq_of_runLabels h (fun P => P.shared.now) (by decide +kernel)
  simp only [Prod.mk.injEq] at hempty
  obtain ⟨hstart, hrow, htoken⟩ := hempty
  have hlag : P.Lagging leaseExpired (Runner.start "pay" none 1) P₀.shared :=
    lagging_of_runLabels h₀ h (hstart.trans hnow.symm)
      (eq_of_runLabels h (fun P => (P.procs 0).map fun p => (p.tag, answer p))
        (by decide +kernel))
      rfl
  exact ⟨P₀, P, hlag, (lag_harmless_iff hlag payExecute).mpr (.inl ⟨hrow, .inr htoken⟩)⟩

/-- **A second start lagged behind throws**: its first execute finds the token of
the first start and ends with "unexpected state", where up-to-date reads grant
the lease. -/
theorem second_start_lag_throws :
    ∃ P₀ P : Handlers, P.Lagging leaseExpired (Runner.start "pay" none 2) P₀.shared ∧
      LeaseLoop.EndsBehind leaseExpired payExecute (Runner.start "pay" none 2) Unit P₀.shared
        P.shared (.thrown (.error "unexpected state")) ∧
      ∀ e, LeaseLoop.Ends leaseExpired payExecute (Runner.start "pay" none 2)
        ({ world := P.shared, phase := .leasing 0 } : LeaseLoop Unit) e ↔ e = .granted := by
  obtain ⟨P₀, h₀⟩ : ∃ P₀, runLabels (arrives 0 payStart 5) = some P₀ :=
    Option.isSome_iff_exists.mp (by decide +kernel)
  obtain ⟨P, h⟩ : ∃ P, runLabels (arrives 0 payStart 5 ++ arrives 1 payStart 5) = some P :=
    Option.isSome_iff_exists.mp (by decide +kernel)
  have hseen : (P₀.shared.now, P₀.shared.checkpoints "pay" 0, P₀.shared.fencingTokens "pay",
      P₀.shared.cache "pay:0") = (0, none, some 1, none) :=
    eq_of_runLabels h₀ (fun P => (P.shared.now, P.shared.checkpoints "pay" 0,
      P.shared.fencingTokens "pay", P.shared.cache "pay:0")) (by decide +kernel)
  have hcurrent : (P.shared.now, P.shared.checkpoints "pay" 0, P.shared.fencingTokens "pay") =
      (0, none, some 2) :=
        eq_of_runLabels h (fun P => (P.shared.now, P.shared.checkpoints "pay" 0,
        P.shared.fencingTokens "pay")) (by decide +kernel)
  simp only [Prod.mk.injEq] at hseen hcurrent
  obtain ⟨hnow₀, hrow₀, htoken₀, hcache₀⟩ := hseen
  obtain ⟨hnow, hrow, htoken⟩ := hcurrent
  have hend : P.shared.leaseEnd payExecute (Runner.start "pay" none 2) = .granted := by
    simp [World.leaseEnd, Runner.start, hrow, htoken, tokenEnd]
  refine ⟨P₀, P, lagging_of_runLabels h₀ h (hnow₀.trans hnow.symm)
    (eq_of_runLabels h (fun P => (P.procs 1).map fun p => (p.tag, answer p))
      (by decide +kernel))
    rfl, ?_, fun e => ?_⟩
  · rw [LeaseLoop.endsBehind_iff (hnow₀.trans hnow.symm)]
    right
    constructor
    · rintro (⟨-, hlease⟩ | ⟨-, -, hnone, -⟩)
      · refine hlease (World.activeLease_eq_none_iff.mpr fun lease h => ?_)
        have hkey : P₀.shared.leaseAt "pay" 0 = none := by
          rw [World.leaseAt, show generateLeasedCheckpointKey "pay" 0 =
            "pay:0" by decide +kernel, hcache₀]
          rfl
        exact absurd (hkey.symm.trans h) (by simp)
      · exact absurd (htoken₀.symm.trans hnone) (by simp)
    · simp [World.leaseEnd, Runner.start, hrow₀, htoken₀, tokenEnd]
  · rw [LeaseLoop.ends_iff (.inl ⟨0, rfl⟩)]
    exact Eq.congr_right hend

end IdempotentTransformer
