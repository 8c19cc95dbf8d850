import IdempotentTransformer.Client.Execution
import IdempotentTransformer.Completion
import IdempotentTransformer.Workers
import IdempotentTransformer.Leases

/-!
# IdempotentTransformer.Returns

A normal return means the step is durable, at the server: where a runner is
used for one call at a time, the positions it has advanced past are all
persisted, and the persisted positions of a workflow have no gap.

The statement is about the runners somebody watches; the others may be used
in any way.  `Saves` is what a run keeps: a watched runner moves by a return
alone, a return follows a reply (`ExecuteCall.resume_returned`), and a reply
follows a stored value (`persisted_of_confirms`).
-/

namespace IdempotentTransformer

open Library

/-! ## What the server does -/

/-- A reply that lets a call return: a checkpoint without abort, or a value. -/
def Confirms (reply : Except HandlerError Response) : Prop :=
  reply = .ok (.checkpoint { abort := false }) ∨
    ∃ value, reply = .ok (.leaseCheckpoint { response := some (.CheckpointValue value) })

/-- The request is a checkpoint the server acknowledges without abort and does
not store: the row it finds has no value and keeps none. -/
def World.Drops (w : World) : Request → Prop
  | .checkpoint data =>
      (∃ row ∈ w.checkpoints data.workflowId data.position, row.value = none) ∧
        ∃ stored ∈ w.fencingTokens data.workflowId, stored ≤ data.fencingToken
  | _ => False

instance (w : World) : (request : Request) → Decidable (w.Drops request)
  | .checkpoint data =>
      inferInstanceAs (Decidable ((∃ row ∈ w.checkpoints data.workflowId data.position, _) ∧
        ∃ stored ∈ w.fencingTokens data.workflowId, _))
  | .workflowStart _ | .leaseCheckpoint _ | .completeWorkflow _ | .workflowStatus _
  | .releaseCheckpoint _ | .generateIdempotencyKey _ | .cleanUp => .isFalse id

/-- A cleanup now would take the rows of the workflow. -/
def World.Collects (w : World) (workflowId : String) : Bool :=
  w.expired w.now WorkflowStatus.Completed.toInt workflowId

instance (w : World) (workflowId : String) (position : Int) :
    Decidable (w.Persisted workflowId position) :=
  inferInstanceAs (Decidable (∃ row, w.checkpoints workflowId position = some row ∧ _))

section Handle

variable {env : Env} (hf : env.fault = .none) {w : World} {request : Request}
  {workflowId : String} {position : Int}

include hf

/-- A reply that lets a call return leaves its position persisted. -/
theorem persisted_of_confirms (hplace : request.leasePosition = some (workflowId, position))
    (ha : Confirms (request.handle env w).1) (hd : ¬ w.Drops request) :
    (request.handle env w).2.Persisted workflowId position := by
  rcases ha with hreply | ⟨value, hreply⟩
  · obtain ⟨data, rfl⟩ := exists_of_checkpoint hreply
    cases hplace
    obtain ⟨stored, htoken, habort, -⟩ := (handle_checkpoint_ok_iff hf w data false).mp hreply
    have hcurrent : stored ≤ data.fencingToken := by
      have hlt : ¬ data.fencingToken < stored := of_decide_eq_false habort.symm
      omega
    have hrow := handle_checkpoint_checkpoints hf w data
    rw [if_pos ⟨false, hreply⟩] at hrow
    refine ⟨_, hrow, ?_⟩
    cases hold : w.checkpoints data.workflowId data.position with
    | none =>
        show some data.value ≠ none
        simp
    | some row =>
        show row.value ≠ none
        intro hnone
        exact hd ⟨⟨row, hold, hnone⟩, stored, htoken, hcurrent⟩
  · obtain ⟨data, rfl⟩ := exists_of_leaseCheckpoint hreply
    cases hplace
    obtain ⟨row, hrow, hvalue⟩ := handle_leaseCheckpoint_of_value hf hreply
    rw [handle_leaseCheckpoint_of_row hf hrow]
    refine ⟨row, hrow, ?_⟩
    rw [hvalue]
    simp

/-- A position stays persisted, but for a cleanup that takes its workflow. -/
theorem persisted_handle (h : w.Persisted workflowId position)
    (hu : request = .cleanUp → w.Collects workflowId = false) :
    (request.handle env w).2.Persisted workflowId position := by
  obtain ⟨row, hrow, hvalue⟩ := h
  by_cases hclean : request = .cleanUp
  · have hspared := hu hclean
    subst hclean
    rcases handle_cleanUp_cases hf w with heq | heq
    · rw [heq]
      exact ⟨row, hrow, hvalue⟩
    · rw [heq]
      refine ⟨row, ?_, hvalue⟩
      show (if w.expired w.now WorkflowStatus.Completed.toInt workflowId then none
        else w.checkpoints workflowId position) = some row
      rw [if_neg (by simpa [World.Collects] using hspared)]
      exact hrow
  · obtain ⟨createdAt, hnew⟩ := handle_row_persists hf w hclean hrow
    exact ⟨_, hnew, hvalue⟩

/-- A position becomes persisted by a checkpoint for it. -/
theorem persisted_cases (h : (request.handle env w).2.Persisted workflowId position) :
    w.Persisted workflowId position ∨
      ∃ data, request = .checkpoint data ∧ data.workflowId = workflowId ∧
        data.position = position := by
  obtain ⟨row, hrow, hvalue⟩ := h
  by_cases hclean : request = .cleanUp
  · left
    subst hclean
    exact ⟨row, handle_cleanUp_row hf hrow, hvalue⟩
  · rcases handle_checkpoints_cases hf w hclean workflowId position with
      hsame | ⟨old, hold, hnew⟩ | ⟨-, ⟨data, hdata, hw, hp, -⟩ | ⟨data, -, -, -, hnew⟩⟩
    · exact .inl ⟨row, hsame ▸ hrow, hvalue⟩
    · rw [hnew, Option.some.injEq] at hrow
      subst hrow
      exact .inl ⟨old, hold, hvalue⟩
    · exact .inr ⟨data, hdata, hw, hp⟩
    · rw [hnew, Option.some.injEq] at hrow
      subst hrow
      exact absurd rfl hvalue

end Handle

namespace Net

variable {V : Type}

/-! ## The condition -/

/-- Among the runners watched: each is used for one call at a time, no call of
theirs falls through the checkpoint loop, no checkpoint of theirs is dropped,
and no cleanup takes a position a call of theirs persisted. -/
def Saving (watched : Nat → Bool) (net : Net V) : NetLabel V → Prop
  | .execute r _ => watched r = true → ∀ call ∈ net.calls, call.runner = r →
      call.phase.settled = true
  | .handle n _ =>
      ∀ rpc ∈ net.rpcs[n]?, ∀ call ∈ net.calls[rpc.call]?, watched call.runner = true →
      ¬ net.world.Drops rpc.request
  | .deliver c now => ∀ call ∈ net.calls[c]?, watched call.runner = true →
      ∀ result ∈ net.outcome call, ¬ call.execute.FallsThrough call.phase (.reply result now)
  | .fail c err now => ∀ call ∈ net.calls[c]?, watched call.runner = true →
      ¬ call.execute.FallsThrough call.phase (.reply (.error (GrpcAdapter.handleError err)) now)
  | .resume c input => ∀ call ∈ net.calls[c]?, watched call.runner = true →
      ¬ call.execute.FallsThrough call.phase input
  | .serve request _ => request = .cleanUp → ∀ call ∈ net.calls, watched call.runner = true →
      net.world.Persisted call.workflowId call.position →
        net.world.Collects call.workflowId = false
  | _ => True

instance (watched : Nat → Bool) (net : Net V)
    (l : NetLabel V) : Decidable (net.Saving watched l) :=
  match l with
  | .execute .. => inferInstanceAs (Decidable (_ = _ → ∀ call ∈ net.calls, _ → _))
  | .handle n _ =>
      inferInstanceAs (Decidable (∀ rpc ∈ net.rpcs[n]?, ∀ call ∈ net.calls[rpc.call]?, _ → _))
  | .deliver c _ =>
      inferInstanceAs (Decidable (∀ call ∈ net.calls[c]?, _ → ∀ result ∈ net.outcome call, _))
  | .fail c .. => inferInstanceAs (Decidable (∀ call ∈ net.calls[c]?, _ → _))
  | .resume c _ => inferInstanceAs (Decidable (∀ call ∈ net.calls[c]?, _ → _))
  | .serve .. => inferInstanceAs (Decidable (_ = _ → ∀ call ∈ net.calls, _ → _ → _))
  | .start .. => .isTrue trivial
  | .tick .. => .isTrue trivial
  | .evict .. => .isTrue trivial

/-! ## The invariant -/

/-- The position is persisted and a watched call was about it. -/
def Saved (watched : Nat → Bool) (net : Net V) (workflowId : String) (position : Int) : Prop :=
  net.world.Persisted workflowId position ∧
    ∃ call ∈ net.calls, watched call.runner = true ∧ call.workflowId = workflowId ∧
      call.position = position

/-- Every position below is saved. -/
def SavedBelow (watched : Nat → Bool) (net : Net V) (workflowId : String)
    (position : Int) : Prop :=
  0 ≤ position ∧ ∀ p, 0 ≤ p → p < position → net.Saved watched workflowId p

/-- What a run keeps of the watched runners and their calls. -/
structure Saves (watched : Nat → Bool) (net : Net V) : Prop where
  /-- A watched runner stands where its call was made until the call settles. -/
  live : ∀ (c : Nat) (call : Call V), net.calls[c]? = some call →
    ∃ runner, net.runners[call.runner]? = some runner ∧ runner.workflowId = call.workflowId ∧
      (watched call.runner = true → call.phase.settled = false →
        runner.position = call.position)
  /-- A watched runner has one call at a time. -/
  alone : ∀ (c c' : Nat) (call call' : Call V), net.calls[c]? = some call →
    net.calls[c']? = some call' →
    watched call.runner = true → call.phase.settled = false → call'.phase.settled = false →
    call.runner = call'.runner → c = c'
  sent : ∀ (n : Nat) (rpc : Rpc), net.rpcs[n]? = some rpc → ∃ call position,
    net.calls[rpc.call]? = some call ∧
      rpc.request.leasePosition = some (call.workflowId, position) ∧
      (watched call.runner = true → position = call.position)
  /-- A call that waits for a reply waits for one to a request of its own. -/
  awaits : ∀ (c : Nat) (call : Call V), net.calls[c]? = some call → call.phase.calling = true →
    ∃ (n : Nat) (rpc : Rpc), call.awaiting = some n ∧ net.rpcs[n]? = some rpc ∧ rpc.call = c
  passed : ∀ (r : Nat) (runner : Runner), net.runners[r]? = some runner → watched r = true →
    net.SavedBelow watched runner.workflowId runner.position
  below : ∀ (c : Nat) (call : Call V), net.calls[c]? = some call → watched call.runner = true →
    net.SavedBelow watched call.workflowId call.position
  confirmed : ∀ (n : Nat) (rpc : Rpc) call reply, net.rpcs[n]? = some rpc →
    net.calls[rpc.call]? = some call → watched call.runner = true → rpc.reply = some reply →
    Confirms reply → net.Saved watched call.workflowId call.position
  replaying : ∀ (c : Nat) (call : Call V) value k, net.calls[c]? = some call →
    watched call.runner = true → call.phase = .deserializing value k →
    net.Saved watched call.workflowId call.position
  /-- Where all runners of a workflow are watched, nobody else stores a value. -/
  stored : ∀ workflowId, (∀ (r : Nat) (runner : Runner), net.runners[r]? = some runner →
      runner.workflowId = workflowId → watched r = true) →
    ∀ position, net.world.Persisted workflowId position → net.Saved watched workflowId position

section Saves

variable {watched : Nat → Bool} {wire : Wire} {net net' : Net V}

theorem saves_initial (watched : Nat → Bool) (h : net.initial) : net.Saves watched := by
  obtain ⟨now, -, rfl⟩ := h
  constructor <;> simp [World.Persisted, World.empty]

theorem SavedBelow.mono {workflowId : String} {position : Int}
    (h : net.SavedBelow watched workflowId position)
    (hs : ∀ p, net.Saved watched workflowId p → net'.Saved watched workflowId p) :
    net'.SavedBelow watched workflowId position :=
  ⟨h.1, fun p h0 hp => hs p (h.2 p h0 hp)⟩

theorem SavedBelow.succ {workflowId : String} {position : Int}
    (h : net.SavedBelow watched workflowId position)
    (hs : net.Saved watched workflowId position) :
    net.SavedBelow watched workflowId (position + 1) := by
  obtain ⟨hpos, hbelow⟩ := h
  refine ⟨by omega, fun p h0 hp => ?_⟩
  have hcases : p < position ∨ p = position := by omega
  rcases hcases with hlt | rfl
  · exact hbelow p h0 hlt
  · exact hs

/-- Another world that keeps what is saved and stores no value. -/
theorem Saves.of_world (h : net.Saves watched) {w : World} (served : List Served)
    (hkept : ∀ workflowId position, net.Saved watched workflowId position →
      w.Persisted workflowId position)
    (hnew : ∀ workflowId position, w.Persisted workflowId position →
      net.world.Persisted workflowId position) :
    ({ net with world := w, served := served } : Net V).Saves watched := by
  have hsaved : ∀ workflowId position, net.Saved watched workflowId position →
      ({ net with world := w, served := served } : Net V).Saved watched workflowId position :=
    fun workflowId position hs => ⟨hkept workflowId position hs, hs.2⟩
  constructor
  case live => exact h.live
  case alone => exact h.alone
  case sent => exact h.sent
  case awaits => exact h.awaits
  case passed => exact fun r runner hr hw => (h.passed r runner hr hw).mono (hsaved _)
  case below => exact fun c call hc hw => (h.below c call hc hw).mono (hsaved _)
  case confirmed =>
    exact fun n rpc call reply hn hc hw hreply hconfirms =>
      hsaved _ _ (h.confirmed n rpc call reply hn hc hw hreply hconfirms)
  case replaying =>
    exact fun c call value k hc hw hphase =>
      hsaved _ _ (h.replaying c call value k hc hw hphase)
  case stored =>
    exact fun workflowId hall position hp =>
      hsaved _ _ (h.stored workflowId hall position (hnew workflowId position hp))

/-- A request from elsewhere stores no value, and cleanup spares what is saved. -/
theorem saves_serve (h : net.Saves watched) {env : Env} (hf : env.fault = .none)
    {request : Request} (hp : request.leasePosition = none)
    (hu : request = .cleanUp → ∀ call ∈ net.calls, watched call.runner = true →
      net.world.Persisted call.workflowId call.position →
      net.world.Collects call.workflowId = false) :
    (net.serve env none request).Saves watched := by
  refine h.of_world _ ?_ ?_
  · intro workflowId position hsaved
    obtain ⟨hpersisted, call, hmem, hwatched, rfl, rfl⟩ := hsaved
    exact persisted_handle hf hpersisted fun hclean => hu hclean call hmem hwatched hpersisted
  · intro workflowId position hpersisted
    rcases persisted_cases hf hpersisted with hold | ⟨data, rfl, -⟩
    · exact hold
    · contradiction

theorem saves_addRunner (h : net.Saves watched) {runner : Runner}
    (hzero : runner.position = 0) :
    (net.addRunner runner).Saves watched := by
  constructor
  case live =>
    intro c call hc
    obtain ⟨runner', hr, hrest⟩ := h.live c call hc
    exact ⟨runner', append_some hr, hrest⟩
  case alone => exact h.alone
  case sent => exact h.sent
  case awaits => exact h.awaits
  case passed =>
    intro r runner' hr hw
    rcases append_cases (o := some runner) hr with hr | ⟨-, heq⟩
    · exact h.passed r runner' hr hw
    · cases heq
      rw [hzero]
      exact ⟨le_refl 0, fun p h0 hp => absurd hp (by omega)⟩
  case below => exact h.below
  case confirmed => exact h.confirmed
  case replaying => exact h.replaying
  case stored =>
    exact fun workflowId hall => h.stored workflowId fun r runner' hr =>
      hall r runner' (append_some hr)

/-- Handling a watched call's request: what confirms the step has stored it. -/
theorem saves_answer (h : net.Saves watched) {env : Env} (hf : env.fault = .none) {n : Nat}
    {rpc : Rpc} {call : Call V} (hn : net.rpcs[n]? = some rpc)
    (hc : net.calls[rpc.call]? = some call)
    (hd : watched call.runner = true → ¬ net.world.Drops rpc.request) :
    (net.answer env n rpc call).Saves watched := by
  obtain ⟨call', position, hc', hplace, hposition⟩ := h.sent n rpc hn
  rw [hc, Option.some.injEq] at hc'
  subst hc'
  have hclean : rpc.request ≠ .cleanUp := by
    intro heq
    rw [heq] at hplace
    contradiction
  have hsaved : ∀ workflowId p, net.Saved watched workflowId p →
      (net.answer env n rpc call).Saved watched workflowId p :=
    fun workflowId p hs => ⟨persisted_handle hf hs.1 (absurd · hclean), hs.2⟩
  constructor
  case live => exact h.live
  case alone => exact h.alone
  case sent =>
    intro m rpc' hm
    obtain ⟨old, hold, hcall, hrequest, -⟩ := answer_cases hn hm
    rw [hcall, hrequest]
    exact h.sent m old hold
  case awaits =>
    intro c call' hc' hcalling
    obtain ⟨m, old, hawaiting, hold, hcall⟩ := h.awaits c call' hc' hcalling
    obtain ⟨new, hnew, hcall', -⟩ := rpcs_answer hn hold
    exact ⟨m, new, hawaiting, hnew, hcall'.trans hcall⟩
  case passed => exact fun r runner hr hw => (h.passed r runner hr hw).mono (hsaved _)
  case below => exact fun c call' hc' hw => (h.below c call' hc' hw).mono (hsaved _)
  case confirmed =>
    intro m rpc' call' reply hm hc' hw hreply hconfirms
    obtain ⟨old, hold, hcall, hrequest, ⟨rfl, hnew⟩ | ⟨-, hsame⟩⟩ := answer_cases hn hm
    · rw [hn, Option.some.injEq] at hold
      subst hold
      rw [hcall] at hc'
      have heq : call' = call := Option.some.inj (hc'.symm.trans hc)
      subst heq
      rw [hnew, Option.some.injEq] at hreply
      subst hreply
      rw [hposition hw] at hplace
      exact ⟨persisted_of_confirms hf hplace hconfirms (hd hw), call',
        List.mem_of_getElem? hc, hw, rfl, rfl⟩
    · rw [hcall] at hc'
      rw [hsame] at hreply
      exact hsaved _ _ (h.confirmed m old call' reply hold hc' hw hreply hconfirms)
  case replaying =>
    exact fun c call' value k hc' hw hphase =>
      hsaved _ _ (h.replaying c call' value k hc' hw hphase)
  case stored =>
    intro workflowId hall p hpersisted
    rcases persisted_cases hf hpersisted with hold | ⟨data, hdata, hworkflow, hp⟩
    · exact hsaved _ _ (h.stored workflowId hall p hold)
    · rw [hdata, Request.leasePosition, Option.some.injEq, Prod.mk.injEq,
        hworkflow, hp] at hplace
      obtain ⟨runner, hr, hrunner, -⟩ := h.live rpc.call call hc
      have hw : watched call.runner = true :=
        hall call.runner runner hr (hrunner.trans hplace.1.symm)
      exact ⟨hpersisted, call, List.mem_of_getElem? hc, hw, hplace.1.symm,
        (hposition hw).symm.trans hplace.2.symm⟩

/-- A call made while no other of its runner is going on. -/
theorem saves_addCall (h : net.Saves watched) {r : Nat} {runner : Runner}
    (hr : net.runners[r]? = some runner) (execute : ExecuteCall)
    (hidle : watched r = true → ∀ call ∈ net.calls, call.runner = r →
      call.phase.settled = true) :
    (net.addCall wire r runner execute).Saves watched := by
  have hsaved : ∀ workflowId p, net.Saved watched workflowId p →
      (net.addCall wire r runner execute).Saved watched workflowId p := by
    intro workflowId p hs
    obtain ⟨hpersisted, call, hmem, hrest⟩ := hs
    exact ⟨hpersisted, call, List.mem_append_left _ hmem, hrest⟩
  constructor
  case live =>
    intro c call hc
    rcases calls_addCall hc with hc | ⟨-, rfl⟩
    · exact h.live c call hc
    · exact ⟨runner, hr, rfl, fun _ _ => rfl⟩
  case alone =>
    intro c₁ c₂ call₁ call₂ h₁ h₂ hw hlive₁ hlive₂ hrunner
    have hbusy {c : Nat} {call : Call V} (hc : net.calls[c]? = some call)
        (hw : watched call.runner = true) (hlive : call.phase.settled = false) :
          call.runner ≠ r := by
      intro heq
      rw [hidle (heq ▸ hw) call (List.mem_of_getElem? hc) heq] at hlive
      contradiction
    rcases calls_addCall h₁ with hold₁ | ⟨rfl, rfl⟩
    · rcases calls_addCall h₂ with hold₂ | ⟨rfl, rfl⟩
      · exact h.alone c₁ c₂ call₁ call₂ hold₁ hold₂ hw hlive₁ hlive₂ hrunner
      · exact absurd hrunner (hbusy hold₁ hw hlive₁)
    · rcases calls_addCall h₂ with hold₂ | ⟨rfl, -⟩
      · exact absurd hrunner.symm (hbusy hold₂ (hrunner ▸ hw) hlive₂)
      · rfl
  case sent =>
    intro n rpc hn
    rcases rpcs_addCall hn with hn | ⟨hcall, -, data, hdata, hw, hp⟩
    · obtain ⟨call, position, hc, hrest⟩ := h.sent n rpc hn
      exact ⟨call, position, append_some hc, hrest⟩
    · refine ⟨{ runner := r, workflowId := runner.workflowId, position := runner.position
                execute := execute, phase := .leasing 0, awaiting := some net.rpcs.length },
        runner.position, ?_, ?_, fun _ => rfl⟩
      · rw [hcall]
        exact List.getElem?_concat_length
      · rw [hdata, ← hw, ← hp]
        rfl
  case awaits =>
    intro c call hc hcalling
    rcases calls_addCall hc with hc | ⟨rfl, rfl⟩
    · obtain ⟨n, rpc, hawaiting, hn, hcall⟩ := h.awaits c call hc hcalling
      exact ⟨n, rpc, hawaiting, append_some hn, hcall⟩
    · exact ⟨net.rpcs.length, _, rfl, List.getElem?_concat_length, rfl⟩
  case passed => exact fun r' runner' hr' hw => (h.passed r' runner' hr' hw).mono (hsaved _)
  case below =>
    intro c call hc hw
    rcases calls_addCall hc with hc | ⟨-, rfl⟩
    · exact (h.below c call hc hw).mono (hsaved _)
    · exact (h.passed r runner hr hw).mono (hsaved _)
  case confirmed =>
    intro n rpc call reply hn hc hw hreply hconfirms
    rcases rpcs_addCall hn with hn | ⟨-, hnone, -⟩
    · obtain ⟨old, position, hold, -⟩ := h.sent n rpc hn
      have heq : old = call := Option.some.inj ((append_some hold).symm.trans hc)
      subst heq
      exact hsaved _ _ (h.confirmed n rpc old reply hn hold hw hreply hconfirms)
    · rw [hnone] at hreply
      contradiction
  case replaying =>
    intro c call value k hc hw hphase
    rcases calls_addCall hc with hc | ⟨-, rfl⟩
    · exact hsaved _ _ (h.replaying c call value k hc hw hphase)
    · contradiction
  case stored => exact fun workflowId hall p hp => hsaved _ _ (h.stored workflowId hall p hp)

/-- The reply a call goes on from is one to a request of its own. -/
theorem reply_outcome (h : net.Saves watched) {c : Nat} {call : Call V}
    (hc : net.calls[c]? = some call) (hcalling : call.phase.calling = true) {l : NetLabel V}
    {reply : AdapterReply} {now : Int} (hi : Prompts net c call l (.reply (.ok reply) now)) :
    ∃ (n : Nat) (rpc : Rpc) (result : _), net.rpcs[n]? = some rpc ∧ rpc.call = c ∧
      rpc.reply = some result ∧ GrpcAdapter.settle result = some (.ok reply) := by
  obtain ⟨n, rpc, hawaiting, hn, hcall⟩ := h.awaits c call hc hcalling
  cases hi with
  | resumed ha =>
      rw [hawaiting] at ha
      contradiction
  | delivered ho =>
      simp only [outcome, hawaiting, hn, Option.bind_eq_some_iff] at ho
      obtain ⟨result, hresult, hsettle⟩ := ho
      exact ⟨n, rpc, result, hn, hcall, hresult, hsettle⟩

section Take

variable {c : Nat} {call : Call V} {runner : Runner} {input : Input V} {turn : Turn V}
  {l : NetLabel V}

/-- A call gets a value to deserialize: its position is saved. -/
theorem saved_of_deserializing (h : net.Saves watched) (hc : net.calls[c]? = some call)
    (hw : watched call.runner = true) (hi : Prompts net c call l input)
    (ht : call.execute.resume runner call.phase input = some turn)
    {value : TSerialized} {k : Nat} (hphase : turn.phase = .deserializing value k) :
    net.Saved watched call.workflowId call.position := by
  obtain ⟨found, remaining, now, hleasing, rfl, hfound⟩ :=
    (ExecuteCall.resume_cases ht).deserializing_cases hphase
  have hcalling : call.phase.calling = true := by
    rw [hleasing]
    rfl
  obtain ⟨n, rpc, result, hn, hcall, hresult, hsettle⟩ := reply_outcome h hc hcalling hi
  obtain ⟨output, rfl, houtput⟩ := GrpcAdapter.settle_lease hsettle
  obtain ⟨bytes, hresponse, -⟩ := GrpcAdapter.leaseReply_value houtput hfound
  have hconfirms : Confirms (.ok (.leaseCheckpoint output)) := by
    refine .inr ⟨bytes, ?_⟩
    rw [← hresponse]
  rw [← hcall] at hc
  exact h.confirmed n rpc call _ hn hc hw hresult hconfirms

/-- A call returns without falling through: its position is saved. -/
theorem saved_of_returned (h : net.Saves watched) (hc : net.calls[c]? = some call)
    (hw : watched call.runner = true) (hi : Prompts net c call l input)
    (ht : call.execute.resume runner call.phase input = some turn)
    (hfalls : ¬ call.execute.FallsThrough call.phase input) {v : V}
    (hphase : turn.phase = .returned v) : net.Saved watched call.workflowId call.position := by
  rcases ExecuteCall.resume_returned ht hphase with ⟨value, k, hdeserializing, -⟩ |
    ⟨leaseExpiry, value, now, hcheckpointing, rfl⟩ | hfall
  · exact h.replaying c call value k hc hw hdeserializing
  · have hcalling : call.phase.calling = true := by
      rw [hcheckpointing]
      rfl
    obtain ⟨n, rpc, result, hn, hcall, hresult, hsettle⟩ := reply_outcome h hc hcalling hi
    have hacknowledged := GrpcAdapter.settle_checkpoint hsettle
    rw [← hcall] at hc
    exact h.confirmed n rpc call _ hn hc hw hresult (.inl hacknowledged)
  · exact absurd hfall hfalls

/-- A call keeps its place through a turn, so what was saved is saved still. -/
theorem saved_take (hc : net.calls[c]? = some call) (workflowId : String) (p : Int)
    (hs : net.Saved watched workflowId p) :
    (net.take wire c call runner input turn).Saved watched workflowId p := by
  obtain ⟨hpersisted, old, hmem, hw, hold⟩ := hs
  obtain ⟨j, hj⟩ := List.getElem?_of_mem hmem
  obtain ⟨new, hnew, hrunner, hworkflow, hposition⟩ :=
    calls_set_some hc hj (net.awaited turn) turn.phase
  refine ⟨hpersisted, new, List.mem_of_getElem? hnew, ?_, ?_⟩
  · rw [hrunner]
    exact hw
  · rw [hworkflow, hposition]
    exact hold

theorem Saves.live_take (h : net.Saves watched) (hc : net.calls[c]? = some call)
    (hr : net.runners[call.runner]? = some runner)
    (ha : ExecuteCall.Advances call.execute runner call.phase input turn) {c' : Nat}
    {call' : Call V} (hc' : (net.take wire c call runner input turn).calls[c']? = some call') :
    ∃ runner', (net.take wire c call runner input turn).runners[call'.runner]? = some runner' ∧
      runner'.workflowId = call'.workflowId ∧
      (watched call'.runner = true → call'.phase.settled = false →
        runner'.position = call'.position) := by
  have hself : (net.runners.set call.runner turn.runner)[call.runner]? = some turn.runner :=
    List.getElem?_set_self (List.getElem?_eq_some_iff.mp hr).1
  rcases set_cases hc' with ⟨rfl, rfl⟩ | ⟨hne, hc'⟩
  · obtain ⟨runner', hr', hworkflow, hplace⟩ := h.live c' call hc
    rw [hr, Option.some.injEq] at hr'
    subst hr'
    refine ⟨turn.runner, hself, ha.workflowId_eq.trans hworkflow, ?_⟩
    intro hw hunsettled
    rcases ha.runner_eq with heq | ⟨-, v, hreturned⟩
    · rw [heq]
      exact hplace hw ha.not_settled
    · rw [hreturned] at hunsettled
      contradiction
  · obtain ⟨runner', hr', hworkflow', hplace'⟩ := h.live c' call' hc'
    by_cases hrunner : call.runner = call'.runner
    · rw [← hrunner, hr, Option.some.injEq] at hr'
      subst hr'
      rw [← hrunner]
      refine ⟨turn.runner, hself, ha.workflowId_eq.trans hworkflow', ?_⟩
      intro hw hunsettled
      exact absurd
        (h.alone c c' call call' hc hc' hw ha.not_settled hunsettled hrunner).symm hne
    · refine ⟨runner', ?_, hworkflow', hplace'⟩
      show (net.runners.set call.runner turn.runner)[call'.runner]? = some runner'
      rw [List.getElem?_set_ne hrunner]
      exact hr'

/-- A turn that waits for a reply has sent its request. -/
theorem exists_sent_of_calling
    (ha : ExecuteCall.Advances call.execute runner call.phase input turn)
    (hcalling : turn.phase.calling = true) :
    ∃ rpc, net.awaited turn = some net.rpcs.length ∧
      (net.take wire c call runner input turn).rpcs[net.rpcs.length]? =
        some rpc ∧ rpc.call = c := by
  obtain ⟨adapterCall, hcall⟩ := Option.isSome_iff_exists.mp (ha.call_isSome.trans hcalling)
  refine ⟨{ call := c, request := GrpcAdapter.request wire adapterCall, reply := none },
    ?_, ?_, rfl⟩
  · rw [awaited, hcall]
    rfl
  · show (net.rpcs ++ Net.sent wire c turn)[net.rpcs.length]? = _
    rw [Net.sent, hcall]
    exact List.getElem?_concat_length

/-- A turn of a call. -/
theorem saves_take (h : net.Saves watched) (hc : net.calls[c]? = some call)
    (hr : net.runners[call.runner]? = some runner) (hi : Prompts net c call l input)
    (ht : call.execute.resume runner call.phase input = some turn)
    (hfalls : watched call.runner = true → ¬ call.execute.FallsThrough call.phase input) :
    (net.take wire c call runner input turn).Saves watched := by
  have ha := ExecuteCall.resume_cases ht
  have hlive := ha.not_settled
  obtain ⟨runner', hr', hworkflow, hplace⟩ := h.live c call hc
  rw [hr, Option.some.injEq] at hr'
  subst hr'
  have hsame := ha.workflowId_eq
  have hsaved : ∀ workflowId p, net.Saved watched workflowId p →
      (net.take wire c call runner input turn).Saved watched workflowId p := saved_take hc
  have runners_cases {r : Nat} {runner' : Runner}
      (hr' : (net.take wire c call runner input turn).runners[r]? = some runner') :
      (r = call.runner ∧ runner' = turn.runner) ∨ net.runners[r]? = some runner' := by
    rcases set_cases hr' with hnew | ⟨-, hold⟩
    · exact .inl hnew
    · exact .inr hold
  constructor
  case live => exact fun _ _ hc' => h.live_take hc hr ha hc'
  case alone =>
    intro c₁ c₂ call₁ call₂ h₁ h₂ hw hlive₁ hlive₂ hrunner
    rcases set_cases h₁ with ⟨rfl, rfl⟩ | ⟨-, hold₁⟩
    · rcases set_cases h₂ with ⟨rfl, rfl⟩ | ⟨-, hold₂⟩
      · rfl
      · exact h.alone c₁ c₂ call call₂ hc hold₂ hw hlive hlive₂ hrunner
    · rcases set_cases h₂ with ⟨rfl, rfl⟩ | ⟨-, hold₂⟩
      · exact h.alone c₁ c₂ call₁ call hold₁ hc hw hlive₁ hlive hrunner
      · exact h.alone c₁ c₂ call₁ call₂ hold₁ hold₂ hw hlive₁ hlive₂ hrunner
  case sent =>
    intro n rpc hn
    rcases append_cases hn with hn | ⟨rfl, hsent⟩
    · obtain ⟨old, position, hold, hrequest, hposition⟩ := h.sent n rpc hn
      obtain ⟨new, hnew, hrunner, hworkflow', hp⟩ :=
        calls_set_some hc hold (net.awaited turn) turn.phase
      refine ⟨new, position, hnew, ?_, ?_⟩
      · rw [hworkflow']
        exact hrequest
      · rw [hrunner, hp]
        exact hposition
    · obtain ⟨new, hnew, hrunner, hworkflow', hp⟩ :=
        calls_set_some hc hc (net.awaited turn) turn.phase
      obtain ⟨rfl, -⟩ := sent_cases ha hsent
      refine ⟨new, runner.position, hnew, ?_, ?_⟩
      · rw [hworkflow', ← hworkflow]
        exact leasePosition_sent ha hsent
      · rw [hrunner, hp]
        exact fun hw => hplace hw hlive
  case awaits =>
    intro c' call' hc' hcalling
    rcases set_cases hc' with ⟨rfl, rfl⟩ | ⟨-, hc'⟩
    · obtain ⟨rpc, hawaiting, hn, hcall⟩ := exists_sent_of_calling ha hcalling
      exact ⟨_, rpc, hawaiting, hn, hcall⟩
    · obtain ⟨n, rpc, hawaiting, hn, hcall⟩ := h.awaits c' call' hc' hcalling
      exact ⟨n, rpc, hawaiting, append_some hn, hcall⟩
  case passed =>
    intro r runner' hr' hw
    rcases runners_cases hr' with ⟨rfl, rfl⟩ | hold
    · have hbelow := (h.passed call.runner runner hr hw).mono (hsaved _)
      rw [hsame]
      rcases ha.runner_eq with heq | ⟨heq, v, hreturned⟩
      · rw [heq]
        exact hbelow
      · rw [heq]
        have hhere := hsaved _ _ (saved_of_returned h hc hw hi ht (hfalls hw) hreturned)
        rw [← hworkflow, ← hplace hw hlive] at hhere
        exact hbelow.succ hhere
    · exact (h.passed r runner' hold hw).mono (hsaved _)
  case below =>
    intro c' call' hc' hw
    rcases set_cases hc' with ⟨rfl, rfl⟩ | ⟨-, hc'⟩
    · exact (h.below c' call hc hw).mono (hsaved _)
    · exact (h.below c' call' hc' hw).mono (hsaved _)
  case confirmed =>
    intro n rpc call' reply hn hc' hw hreply hconfirms
    rcases append_cases hn with hn | ⟨-, hsent⟩
    · rcases set_cases hc' with ⟨hcall, rfl⟩ | ⟨-, hc'⟩
      · rw [← hcall] at hc
        exact hsaved _ _ (h.confirmed n rpc call reply hn hc hw hreply hconfirms)
      · exact hsaved _ _ (h.confirmed n rpc call' reply hn hc' hw hreply hconfirms)
    · obtain ⟨adapterCall, -, rfl⟩ := Option.map_eq_some_iff.mp hsent
      contradiction
  case replaying =>
    intro c' call' value k hc' hw hphase
    rcases set_cases hc' with ⟨rfl, rfl⟩ | ⟨-, hc'⟩
    · have hhere := saved_of_deserializing h hc hw hi ht hphase
      exact hsaved _ _ hhere
    · exact hsaved _ _ (h.replaying c' call' value k hc' hw hphase)
  case stored =>
    intro workflowId hall p hpersisted
    refine hsaved _ _ (h.stored workflowId (fun r runner' hr' hid => ?_) p hpersisted)
    obtain ⟨new, hnew, hsame'⟩ := runners_take ha hr hr'
    exact hall r new hnew (hsame'.trans hid)

end Take

/-- What a watched call goes on with does not make it fall through. -/
theorem not_fallsThrough {c : Nat} {call : Call V} {input : Input V} {l : NetLabel V}
    (hs : net.Saving watched l) (hc : net.calls[c]? = some call)
    (hi : Prompts net c call l input)
    (hw : watched call.runner = true) : ¬ call.execute.FallsThrough call.phase input := by
  cases hi with
  | delivered ho => exact hs call hc hw _ ho
  | failed ha => exact hs call hc hw
  | resumed ha => exact hs call hc hw

/-- Every step. -/
theorem saves_step {evictable : CachedLease → Int → Bool} {l : NetLabel V}
    (hstep : Stepped evictable wire net l net') (hs : net.Saving watched l)
    (h : net.Saves watched) : net'.Saves watched := by
  cases hstep with
  | started hf ht =>
      refine saves_addRunner (saves_serve h hf rfl ?_) rfl
      intro heq
      contradiction
  | called hr => exact saves_addCall h hr _ hs
  | answered hf hn hc hp => exact saves_answer h hf hn hc (hs _ hn _ hc)
  | turned hc hr hi ht => exact saves_take h hc hr hi ht (not_fallsThrough hs hc hi)
  | served hf hp => exact saves_serve h hf hp hs
  | ticked => exact h.of_world _ (fun _ _ hsaved => hsaved.1) (fun _ _ hp => hp)
  | evicted hc he => exact h.of_world _ (fun _ _ hsaved => hsaved.1) (fun _ _ hp => hp)

/-- Every run. -/
theorem saves_of_reachable {evictable : CachedLease → Int → Bool}
    (hr : Reachable (step evictable wire) (Saving watched) initial net) : net.Saves watched :=
  hr.invariant (Saves watched) (fun _ h => saves_initial watched h)
    fun _ _ _ h hs hstep => saves_step (step_cases hstep) hs h

end Saves

end Net

/-! ## Normal returns -/

/-- **A normal return means the step is durable, unless the call fell through.**
A call that returned has replayed its value or had it acknowledged, exactly if
it did not leave the checkpoint loop by the clock without an `onAbort`.  And
where no watched call does so (nor has a checkpoint dropped), the positions the
watched runners have advanced past are persisted, and those of a workflow whose
runners are all watched have no gap. -/
theorem returns_are_durable (V : Type) :
    (∀ (c : ExecuteCall) (s : Execution V), s.Reached c → ∀ v, s.phase = .returned v →
      (s.Replayed v ∨ s.Acknowledged v ↔ ∀ turn ∈ s.turns, ¬ c.FallsThrough turn.1 turn.2)) ∧
    ∀ (evictable : CachedLease → Int → Bool) (wire : Wire) (watched : Nat → Bool) (net : Net V),
      Reachable (Net.step evictable wire) (Net.Saving watched) Net.initial net →
      (∀ r runner, net.runners[r]? = some runner → watched r = true →
        ∀ p, 0 ≤ p → p < runner.position → net.world.Persisted runner.workflowId p) ∧
      ∀ workflowId, (∀ r runner, net.runners[r]? = some runner →
          runner.workflowId = workflowId → watched r = true) →
        ∀ q, net.world.Persisted workflowId q →
          0 ≤ q ∧ ∀ p, 0 ≤ p → p < q → net.world.Persisted workflowId p := by
  constructor
  · intro c s hr v hv
    exact Execution.durable_iff hr hv
  · intro evictable wire watched net hr
    have h := Net.saves_of_reachable hr
    constructor
    · intro r runner hrunner hw p h0 hp
      exact ((h.passed r runner hrunner hw).2 p h0 hp).1
    · intro workflowId hall q hq
      obtain ⟨-, call, hmem, hw, rfl, rfl⟩ := h.stored workflowId hall q hq
      obtain ⟨c, hc⟩ := List.getElem?_of_mem hmem
      have hbelow := h.below c call hc hw
      exact ⟨hbelow.1, fun p h0 hp => (hbelow.2 p h0 hp).1⟩

/-- A step with no `onAbort`, leased for a second. -/
def unattended : ExecuteCall :=
  { idempotencyKey := "k", options := { leaseTimeout := some 1000, onAbort := none } }

/-- A call of a worker that has just started its workflow. -/
def begunCall : Execution Bytes :=
  { phase := (unattended.begin (.start "pay" none 1) (V := Bytes)).phase, turns := [] }

theorem begun_begunCall : begunCall.Begun unattended := ⟨.start "pay" none 1, rfl⟩

/-- A call is granted the lease and its task ends; `last` is what its
checkpoint call comes back with. -/
def callTurns (last : Input Bytes) : List (Runner × Input Bytes) :=
  [.reply (.ok (.leaseCheckpoint (some (.text "")) (some 0))) 0, .taskSettled (.ok [7]),
    .serialized (.ok (.bytes [7])) 0, last].map fun input => (.start "pay" none 1, input)

/-- A worker starts a workflow and its first step ends; `last` is what becomes
of the checkpoint call. -/
def stepEnds (last : List (NetLabel Bytes)) : List (NetLabel Bytes) :=
  [.start "pay" none none (.calm "" true), .execute 0 unattended, .handle 0 (.calm "" true),
    .deliver 0 0, .resume 0 (.taskSettled (.ok [7])),
    .resume 0 (.serialized (.ok (.bytes [7])) 0)] ++ last

/-- A checkpoint that is acknowledged: the step is durable. -/
theorem acknowledged_step_durable :
    ∃ (s : Execution Bytes) (net : Net Bytes),
      exec (Execution.step unattended) begunCall
        (callTurns (.reply (.ok (.checkpoint false)) 1)) =
        some s ∧
      execOk (Net.step leaseExpired silentWire) (Net.Saving fun _ => true) (Net.start Bytes)
        (stepEnds [.handle 1 (.calm "" true), .deliver 0 1]) = some net ∧
      (s.Replayed [7] ∨ s.Acknowledged [7]) ∧ net.runners.map Runner.position = [1] ∧
      net.world.Persisted "pay" 0 ∧
      ∀ q, net.world.Persisted "pay" q → 0 ≤ q ∧ ∀ p, 0 ≤ p → p < q →
        net.world.Persisted "pay" p := by
  obtain ⟨s, hs⟩ : ∃ s, exec (Execution.step unattended) begunCall
      (callTurns (.reply (.ok (.checkpoint false)) 1)) = some s :=
    Option.isSome_iff_exists.mp (by decide +kernel)
  obtain ⟨net, hnet⟩ :
    ∃ net, execOk (Net.step leaseExpired silentWire) (Net.Saving fun _ => true)
      (Net.start Bytes) (stepEnds [.handle 1 (.calm "" true), .deliver 0 1]) = some net :=
    Option.isSome_iff_exists.mp (by decide +kernel)
  have hphase := eq_of_outcome hs Execution.phase (a := .returned [7]) (by decide +kernel)
  have hturns := eq_of_outcome hs
    (fun s => decide (∀ turn ∈ s.turns, ¬ unattended.FallsThrough turn.1 turn.2)) (a := true)
    (by decide +kernel)
  have hrunner := eq_of_outcome hnet (fun net => net.runners[0]?)
    (a := some { Runner.start "pay" none 1 with position := 1 }) (by decide +kernel)
  have hpositions := eq_of_outcome hnet (fun net => net.runners.map Runner.position) (a := [1])
    (by decide +kernel)
  have hreached : s.Reached unattended := .of_exec (.start begun_begunCall) hs
  have hdurable := ((returns_are_durable Bytes).1 unattended s hreached [7] hphase).mpr
    (of_decide_eq_true hturns)
  obtain ⟨hpassed, hgap⟩ :=
    (returns_are_durable Bytes).2 leaseExpired silentWire (fun _ => true) net
    (.of_execOk (.start (Net.initial_start Bytes)) hnet)
  exact ⟨s, net, hs, hnet, hdurable, hpositions,
    hpassed 0 _ hrunner rfl 0 (le_refl 0) (by decide), hgap "pay" fun _ _ _ _ => rfl⟩

/-- The checkpoint call is refused until the lease has expired: the step returns
all the same, and the next one is persisted after a gap. -/
theorem unsaved_step_returned :
    ∃ (s : Execution Bytes) (net : Net Bytes),
      exec (Execution.step unattended) begunCall
        (callTurns (.reply (.error (.error "connection lost")) 1000)) = some s ∧
      exec (Net.step leaseExpired silentWire) (Net.start Bytes)
        (stepEnds [.fail 0 { details := "", message := "connection lost" } 1000,
          .execute 0 unattended, .handle 2 (.calm "" true), .deliver 1 1000,
          .resume 1 (.taskSettled (.ok [8])), .resume 1 (.serialized (.ok (.bytes [8])) 1000),
          .handle 3 (.calm "" true), .deliver 1 1001]) = some net ∧
      s.Reached unattended ∧ s.phase = .returned [7] ∧ ¬ (s.Replayed [7] ∨ s.Acknowledged [7]) ∧
      Reachable (Net.step leaseExpired silentWire) anyStep Net.initial net ∧
      net.runners.map Runner.position = [2] ∧ net.world.Persisted "pay" 1 ∧
      ¬ net.world.Persisted "pay" 0 := by
  obtain ⟨s, hs⟩ : ∃ s, exec (Execution.step unattended) begunCall
      (callTurns (.reply (.error (.error "connection lost")) 1000)) = some s :=
    Option.isSome_iff_exists.mp (by decide +kernel)
  obtain ⟨net, hnet⟩ : ∃ net, exec (Net.step leaseExpired silentWire) (Net.start Bytes)
      (stepEnds [.fail 0 { details := "", message := "connection lost" } 1000,
        .execute 0 unattended, .handle 2 (.calm "" true), .deliver 1 1000,
        .resume 1 (.taskSettled (.ok [8])), .resume 1 (.serialized (.ok (.bytes [8])) 1000),
        .handle 3 (.calm "" true), .deliver 1 1001]) = some net :=
    Option.isSome_iff_exists.mp (by decide +kernel)
  have hphase := eq_of_outcome hs Execution.phase (a := .returned [7]) (by decide +kernel)
  have hfalls := eq_of_outcome hs
    (fun s => decide (∃ turn ∈ s.turns, unattended.FallsThrough turn.1 turn.2)) (a := true)
    (by decide +kernel)
  have hpositions := eq_of_outcome hnet (fun net => net.runners.map Runner.position) (a := [2])
    (by decide +kernel)
  have hsecond :=
    eq_of_outcome hnet (fun net => decide (net.world.Persisted "pay" 1)) (a := true)
    (by decide +kernel)
  have hfirst :=
    eq_of_outcome hnet (fun net => decide (net.world.Persisted "pay" 0)) (a := false)
    (by decide +kernel)
  have hreached : s.Reached unattended := .of_exec (.start begun_begunCall) hs
  have hundurable : ¬ (s.Replayed [7] ∨ s.Acknowledged [7]) := by
    intro hdurable
    obtain ⟨turn, hmem, hturn⟩ := of_decide_eq_true hfalls
    exact (Execution.durable_iff hreached hphase).mp hdurable turn hmem hturn
  exact ⟨s, net, hs, hnet, hreached, hphase, hundurable,
    .of_exec (.start (Net.initial_start Bytes)) hnet, hpositions, of_decide_eq_true hsecond,
    of_decide_eq_false hfirst⟩

end IdempotentTransformer
