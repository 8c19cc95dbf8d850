import IdempotentTransformer.Guard
import IdempotentTransformer.Lag
import IdempotentTransformer.Window

/-!
# IdempotentTransformer.Resumption

That a workflow can always be taken up again.

Whatever the workers of a network have done to a workflow — crashed with its
leases held, left requests on their way, started it over and over — a worker
that starts it now can run its steps to their ends and complete it, if they ask
for leases of some length, their results are serialized to bytes, and what is
stored at their positions are values under their keys.  It needs nobody else:
only its own requests are handled, and the clock goes on until the leases left
behind have run out.

* `exists_executed` — one step: a value stored is returned as it is, and where
  none is the task's result is stored and returned;
* `workflow_resumable` — the whole workflow.
-/

namespace IdempotentTransformer

open Library

/-! ## What is done -/

/-- A step of a workflow: how it is called, what its task returns, and the bytes
that is stored as. -/
structure Job (V : Type) where
  execute : ExecuteCall
  result : V
  bytes : Bytes

/-- It asks for a lease of some length, within which its result can be stored. -/
structure Job.Storable {V : Type} (serializer : Serializer V) (job : Job V) : Prop where
  timeout : 0 < job.execute.options.leaseMilliseconds
  serialized : serializer.serialize job.result = .bytes job.bytes

/-- The runner so many steps on. -/
def Runner.advanceBy (runner : Runner) (n : Nat) : Runner :=
  { runner with position := runner.position + n }

theorem Runner.advanceBy_succ (runner : Runner) (n : Nat) :
    runner.advanceBy (n + 1) = runner.advance.advanceBy n := by
  simp only [advanceBy, advance, Nat.cast_succ, Runner.mk.injEq, true_and]
  omega

namespace World

variable {V : Type}

/-- If anything is stored at the position, it is a value under the key. -/
def Admits (w : World) (workflowId : String) (position : Int)
    (idempotencyKey : String) : Prop :=
  ∀ row, w.checkpoints workflowId position = some row →
    row.idempotencyKey = idempotencyKey ∧ row.value ≠ none

/-- The value stored at the position. -/
def storedValue (w : World) (workflowId : String) (position : Int) : Option Bytes :=
  (w.checkpoints workflowId position).bind Checkpoint.value

/-- What the step at the position is to return. -/
def outcome (serializer : Serializer V) (w : World) (workflowId : String) (position : Int)
    (job : Job V) : V :=
  match w.storedValue workflowId position with
  | some value => serializer.deserialize (.bytes value)
  | none => job.result

/-- What is to be stored at the position then. -/
def outcomeBytes (w : World) (workflowId : String) (position : Int) (job : Job V) : Bytes :=
  (w.storedValue workflowId position).getD job.bytes

end World

namespace Net

variable {V : Type}

/-- Only the worker of runner `r` moves, whose calls are the ones from `first`
on, and the clock. -/
def Solo (wire : Wire) (r first : Nat) (net : Net V) : NetLabel V → Prop
  | .start _ _ _ _ => net.runners.length = r
  | .execute runner _ => runner = r
  | .handle n _ => ∀ rpc ∈ net.rpcs[n]?, first ≤ rpc.call
  | .deliver c _ => first ≤ c
  | .resume c _ => first ≤ c
  | .serve request _ => ∃ runner ∈ net.runners[r]?,
      request = GrpcAdapter.request wire runner.complete
  | .tick _ => True
  | _ => False

/-- One turn after another of a worker that follows the protocol by itself. -/
def Follows (evictable : CachedLease → Int → Bool) (wire : Wire) (serializer : Serializer V)
    (r first : Nat) (net net' : Net V) : Prop :=
  Reachable (step evictable wire)
    (fun net l => net.Guarded serializer l ∧ net.OneClock l ∧ net.Solo wire r first l) (· = net)
    net'

/-- Where a worker stands between two of its steps. -/
structure Ready (net : Net V) (r : Nat) (runner : Runner) : Prop where
  found : net.runners[r]? = some runner
  token : net.world.fencingTokens runner.workflowId = some runner.fencingToken
  idle : ∀ call ∈ net.calls, call.runner = r → call.phase.settled = true

/-- What a step leaves behind. -/
structure Executed (serializer : Serializer V) (r : Nat) (runner : Runner)
    (job : Job V) (net net' : Net V) : Prop where
  ready : net'.Ready r runner.advance
  returned : ∃ call, net'.calls = net.calls ++ [call] ∧ call.runner = r ∧
    call.execute = job.execute ∧ call.phase = .returned
      (net.world.outcome serializer runner.workflowId runner.position job)
  stored : ∃ row, net'.world.checkpoints runner.workflowId runner.position = some row ∧
    row.idempotencyKey = job.execute.idempotencyKey ∧ row.value = some
      (net.world.outcomeBytes runner.workflowId runner.position job)
  elsewhere : ∀ workflowId position, (workflowId, position) ≠
    (runner.workflowId, runner.position) →
    net'.world.checkpoints workflowId position = net.world.checkpoints workflowId position
  workflows : net'.world.workflows = net.world.workflows
  tokens : net'.world.fencingTokens = net.world.fencingTokens

/-- What its steps leave behind. -/
structure Ran (serializer : Serializer V) (r : Nat) (runner : Runner)
    (jobs : List (Job V)) (net net' : Net V) : Prop where
  ready : net'.Ready r (runner.advanceBy jobs.length)
  kept : ∀ (c : Nat) (call : Call V), net.calls[c]? = some call → net'.calls[c]? = some call
  returned : ∀ (i : Nat) job, jobs[i]? = some job → ∃ call,
    net'.calls[net.calls.length + i]? = some call ∧ call.runner = r ∧
      call.execute = job.execute ∧ call.phase = .returned
        (net.world.outcome serializer runner.workflowId (runner.position + i) job)
  stored : ∀ (i : Nat) job, jobs[i]? = some job → ∃ row,
    net'.world.checkpoints runner.workflowId (runner.position + i) = some row ∧
      row.idempotencyKey = job.execute.idempotencyKey ∧ row.value = some
        (net.world.outcomeBytes runner.workflowId (runner.position + i) job)
  elsewhere : ∀ workflowId position, (∀ i : Nat, i < jobs.length →
      (workflowId, position) ≠ (runner.workflowId, runner.position + i)) →
    net'.world.checkpoints workflowId position = net.world.checkpoints workflowId position
  workflows : net'.world.workflows = net.world.workflows
  tokens : net'.world.fencingTokens = net.world.fencingTokens

/-! ## The turns of one call -/

/-- A call under way, the last that was made. -/
structure Stage (net : Net V) (before : List (Call V)) (r : Nat) (runner : Runner)
    (call : Call V) : Prop where
  calls : net.calls = before ++ [call]
  found : net.runners[r]? = some runner
  uses : call.runner = r

section Turns

variable {evictable : CachedLease → Int → Bool} {wire : Wire} {serializer : Serializer V}
  {r first : Nat} {net net' net'' : Net V} {before : List (Call V)} {runner : Runner}
  {call : Call V}

theorem Follows.of_step (l : NetLabel V) (hguard : net.Guarded serializer l)
    (hclock : net.OneClock l) (hsolo : net.Solo wire r first l)
    (hs : step evictable wire net l = some net') :
    Follows evictable wire serializer r first net net' :=
  .step (.start rfl) ⟨hguard, hclock, hsolo⟩ hs

theorem Follows.trans (h : Follows evictable wire serializer r first net net')
    (h' : Follows evictable wire serializer r first net' net'') :
    Follows evictable wire serializer r first net net'' :=
  Reachable.trans h h'

theorem Stage.getElem? (h : net.Stage before r runner call) :
    net.calls[before.length]? = some call := by
  rw [h.calls]
  exact List.getElem?_concat_length

/-- A turn of the call keeps the stage. -/
theorem Stage.take (h : net.Stage before r runner call) (input : Input V) (turn : Turn V) :
    (net.take wire before.length call runner input turn).Stage before r turn.runner
      { call with phase := turn.phase, awaiting := net.awaited turn } := by
  constructor
  case calls =>
    show net.calls.set before.length _ = _
    rw [h.calls, List.set_append_right _ _ (le_refl _), Nat.sub_self, List.set_cons_zero]
  case found =>
    show (net.runners.set call.runner turn.runner)[r]? = some turn.runner
    rw [h.uses]
    exact List.getElem?_set_self (List.getElem?_eq_some_iff.mp h.found).1
  case uses => exact h.uses

/-- The request a turn sends. -/
theorem rpcs_take {c : Nat} {input : Input V} {turn : Turn V} {adapterCall : AdapterCall}
    (h : turn.call = some adapterCall) :
    (net.take wire c call runner input turn).rpcs[net.rpcs.length]? =
      some { call := c, request := GrpcAdapter.request wire adapterCall, reply := none } := by
  show (net.rpcs ++ sent wire c turn)[net.rpcs.length]? = _
  rw [sent, h]
  exact List.getElem?_concat_length

variable (evictable wire serializer first)

/-- The request of the call is handled and its reply delivered at once. -/
theorem exists_exchanged (hfirst : first ≤ before.length) (h : net.Stage before r runner call)
    {n : Nat} {request : Request} (hawaiting : call.awaiting = some n)
    (hn : net.rpcs[n]? = some { call := before.length, request := request, reply := none })
    {result : Except Thrown AdapterReply}
    (hsettle : GrpcAdapter.settle (request.handle (.calm "" true) net.world).1 = some result)
    {turn : Turn V}
    (hturn : call.execute.resume runner call.phase (.reply result net.world.now) = some turn) :
    ∃ net', Follows evictable wire serializer r first net net' ∧
      net'.world = (request.handle (.calm "" true) net.world).2 ∧
      net'.Stage before r turn.runner
        { call with phase := turn.phase, awaiting := turn.call.map fun _ => net.rpcs.length } ∧
      ∀ adapterCall, turn.call = some adapterCall → net'.rpcs[net.rpcs.length]? = some
        { call := before.length, request := GrpcAdapter.request wire adapterCall
          reply := none } := by
  obtain ⟨net₁, hnet₁⟩ : ∃ net₁, net.answer (.calm "" true) n
      { call := before.length, request := request, reply := none } call = net₁ := ⟨_, rfl⟩
  have hlength : net₁.rpcs.length = net.rpcs.length := by
    rw [← hnet₁]
    exact List.length_set
  have hnow : net₁.world.now = net.world.now := by
    rw [← hnet₁]
    exact handle_now ..
  have hstage : net₁.Stage before r runner call := by
    rw [← hnet₁]
    exact ⟨h.calls, h.found, h.uses⟩
  have hreplied : net₁.rpcs[n]? = some
      { call := before.length, request := request
        reply := some (request.handle (.calm "" true) net.world).1 } := by
    rw [← hnet₁]
    exact List.getElem?_set_self (List.getElem?_eq_some_iff.mp hn).1
  have hhandle : step evictable wire net (.handle n (.calm "" true)) = some net₁ := by
    simp [step, hn, h.getElem?, Env.calm, ← hnet₁]
  have hdeliver : step evictable wire net₁ (.deliver before.length net.world.now) =
      some (net₁.take wire before.length call runner (.reply result net.world.now) turn) := by
    simp [step, hstage.getElem?, outcome, hawaiting, hreplied, hsettle, goOn,
      h.uses, hstage.found, hturn]
  refine ⟨_, (Follows.of_step (.handle n (.calm "" true)) trivial trivial ?_ hhandle).trans
    (.of_step (.deliver before.length net.world.now) trivial hnow.symm hfirst hdeliver), ?_,
    ?_, ?_⟩
  · intro rpc hrpc
    obtain rfl := Option.some.inj (hn.symm.trans hrpc)
    exact hfirst
  · rw [← hnet₁]
    rfl
  · rw [← hlength]
    exact hstage.take (.reply result net.world.now) turn
  · intro adapterCall hcall
    rw [← hlength]
    exact rpcs_take hcall

/-- The call goes on by itself. -/
theorem exists_resumed (hfirst : first ≤ before.length) (h : net.Stage before r runner call)
    (hawaiting : call.awaiting = none) (input : Input V)
    (hexplains : serializer.Explains call.phase input)
    (hnow : ∀ now ∈ input.now?, now = net.world.now)
    {turn : Turn V} (hturn : call.execute.resume runner call.phase input = some turn) :
    ∃ net', Follows evictable wire serializer r first net net' ∧ net'.world = net.world ∧
      net'.Stage before r turn.runner
        { call with phase := turn.phase, awaiting := turn.call.map fun _ => net.rpcs.length } ∧
      ∀ adapterCall, turn.call = some adapterCall → net'.rpcs[net.rpcs.length]? = some
        { call := before.length, request := GrpcAdapter.request wire adapterCall
          reply := none } := by
  have hresume : step evictable wire net (.resume before.length input) =
      some (net.take wire before.length call runner input turn) := by
    simp [step, h.getElem?, hawaiting, goOn, h.uses, h.found, hturn]
  refine ⟨_, .of_step (.resume before.length input) ?_ hnow hfirst hresume, rfl,
    h.take input turn, fun _ => rpcs_take⟩
  intro call' hc
  obtain rfl := Option.some.inj (h.getElem?.symm.trans hc)
  exact hexplains

/-- A call is made: it asks for its lease. -/
theorem exists_called (h : net.Ready r runner) (execute : ExecuteCall) :
    ∃ net', Follows evictable wire serializer r first net net' ∧ net'.world = net.world ∧
      net'.Stage net.calls r runner
        { runner := r, workflowId := runner.workflowId, position := runner.position
          execute := execute, phase := .leasing 0, awaiting := some net.rpcs.length } ∧
      net'.rpcs[net.rpcs.length]? = some
        { call := net.calls.length
          request := .leaseCheckpoint (execute.leaseInput runner), reply := none } := by
  have hs : step evictable wire net (.execute r execute) =
      some (net.addCall wire r runner execute) := by
    simp [step, h.found]
  refine ⟨_, .of_step (.execute r execute) h.idle trivial rfl hs, rfl, ⟨rfl, h.found, rfl⟩, ?_⟩
  exact List.getElem?_concat_length

/-- The clock goes on until no lease of the position is in force. -/
theorem exists_expired (h : net.Ready r runner) (workflowId : String) (position : Int) :
    ∃ net', Follows evictable wire serializer r first net net' ∧ net'.Ready r runner ∧
      net'.calls = net.calls ∧ net'.world.checkpoints = net.world.checkpoints ∧
      net'.world.workflows = net.world.workflows ∧
      net'.world.fencingTokens = net.world.fencingTokens ∧
      net'.world.activeLease workflowId position = none := by
  obtain ⟨elapsed, hlease⟩ := LeaseLoop.exists_tick net.world workflowId position
  exact ⟨_, .of_step (.tick elapsed) trivial trivial trivial rfl,
    ⟨h.found, h.token, h.idle⟩, rfl, rfl, rfl, rfl, hlease⟩

variable {evictable wire serializer first}

/-- What the last turn of a step leaves behind. -/
theorem executed_of_returned {job : Job V} (h : net.Ready r runner)
    (hstage : net'.Stage net.calls r runner.advance call)
    (hexecute : call.execute = job.execute)
    (hreturned : call.phase =
      .returned (net.world.outcome serializer runner.workflowId runner.position job))
    (htokens : net'.world.fencingTokens = net.world.fencingTokens)
    (hworkflows : net'.world.workflows = net.world.workflows)
    (hstored : ∃ row, net'.world.checkpoints runner.workflowId runner.position = some row ∧
      row.idempotencyKey = job.execute.idempotencyKey ∧ row.value = some
        (net.world.outcomeBytes runner.workflowId runner.position job))
    (helsewhere : ∀ workflowId position,
      (workflowId, position) ≠ (runner.workflowId, runner.position) →
      net'.world.checkpoints workflowId position = net.world.checkpoints workflowId position) :
    Executed serializer r runner job net net' := by
  constructor
  case ready =>
    refine ⟨hstage.found, by rw [htokens]; exact h.token, ?_⟩
    intro call' hcall' hr
    rw [hstage.calls] at hcall'
    rcases List.mem_append.mp hcall' with hcall' | hcall'
    · exact h.idle call' hcall' hr
    · rw [List.mem_singleton.mp hcall', hreturned]
      rfl
  case returned => exact ⟨call, hstage.calls, hstage.uses, hexecute, hreturned⟩
  case stored => exact hstored
  case elsewhere => exact helsewhere
  case workflows => exact hworkflows
  case tokens => exact htokens

/-- **A step whose value is stored** is answered with it. -/
theorem exists_replayed (hfirst : first ≤ net.calls.length)
    (h : net.Ready r runner) (job : Job V) {row : Checkpoint} {value : Bytes}
    (hrow : net.world.checkpoints runner.workflowId runner.position = some row)
    (hkey : row.idempotencyKey = job.execute.idempotencyKey) (hvalue : row.value = some value) :
    ∃ net', Follows evictable wire serializer r first net net' ∧
      Executed serializer r runner job net net' := by
  have hstored : net.world.storedValue runner.workflowId runner.position = some value := by
    rw [World.storedValue, hrow]
    exact hvalue
  obtain ⟨net₁, hfollows₁, hworld₁, hstage₁, hrpc₁⟩ :=
    exists_called evictable wire serializer first h job.execute
  have hhandle : (Request.leaseCheckpoint (job.execute.leaseInput runner)).handle
    (.calm "" true)
      net₁.world =
        (.ok (.leaseCheckpoint { response := some (.CheckpointValue value) }), net.world) := by
    have hrow' : net.world.checkpoints (job.execute.leaseInput runner).workflowId
        (job.execute.leaseInput runner).position = some row := hrow
    have hkey' : ¬ row.idempotencyKey ≠ (job.execute.leaseInput runner).idempotencyKey :=
      not_not.mpr hkey
    rw [hworld₁, handle_leaseCheckpoint_of_row rfl hrow', replayReply, if_neg hkey', hvalue]
  obtain ⟨net₂, hfollows₂, hworld₂, hstage₂, -⟩ :=
    exists_exchanged evictable wire serializer first
    hfirst hstage₁ rfl hrpc₁ (by rw [hhandle]; rfl) rfl
  rw [hhandle] at hworld₂
  obtain ⟨net₃, hfollows₃, hworld₃, hstage₃, -⟩ :=
    exists_resumed evictable wire serializer first
    hfirst hstage₂ rfl (.deserialized (.ok (serializer.deserialize (.bytes value)))) rfl
    (by rintro now ⟨⟩) rfl
  have hworld : net₃.world = net.world := hworld₃.trans hworld₂
  refine ⟨net₃, (hfollows₁.trans hfollows₂).trans hfollows₃,
    executed_of_returned h hstage₃ rfl ?_ (by rw [hworld]) (by rw [hworld]) ⟨row, ?_, hkey, ?_⟩
      (fun workflowId position _ => by rw [hworld])⟩
  · simp [World.outcome, hstored]
  · rw [hworld, hrow]
  · simp [World.outcomeBytes, hstored, hvalue]

/-- A checkpoint under the current token where no row is. -/
theorem handle_checkpoint_of_current {w : World} {runner : Runner}
    (htoken : w.fencingTokens runner.workflowId = some runner.fencingToken)
    (hrow : w.checkpoints runner.workflowId runner.position = none) (value : Bytes)
    (key : String) :
    (Request.checkpoint
        { workflowId := runner.workflowId, fencingToken := runner.fencingToken
          position := runner.position, value := value, idempotencyKey := key }).handle
        (.calm "" true) w =
      (.ok (.checkpoint { abort := false }),
        (w.dropLease runner.workflowId runner.position).setCheckpoint runner.workflowId
          runner.position
            { idempotencyKey := key, value := some value, createdAt := w.now }) := by
  rw [handle_checkpoint, run_handleCheckpoint rfl, htoken]
  simp [hrow, upsertCheckpoint, Except.map]

/-- **A step with nothing stored** is granted its lease, and its result stored. -/
theorem exists_performed (hfirst : first ≤ net.calls.length)
    (h : net.Ready r runner) (job : Job V)
    (hrow : net.world.checkpoints runner.workflowId runner.position = none)
    (hlease : net.world.activeLease runner.workflowId runner.position = none)
    (hjob : job.Storable serializer) :
    ∃ net', Follows evictable wire serializer r first net net' ∧
      Executed serializer r runner job net net' := by
  have hstored : net.world.storedValue runner.workflowId runner.position = none := by
    rw [World.storedValue, hrow]
    rfl
  obtain ⟨net₁, hfollows₁, hworld₁, hstage₁, hrpc₁⟩ :=
    exists_called evictable wire serializer first h job.execute
  -- The lease is granted, the task runs and its result is serialized.
  have hgranted :
    ((Request.leaseCheckpoint (job.execute.leaseInput runner)).handle (.calm "" true)
      net₁.world).1 = granted := by
    rw [hworld₁]
    exact (handle_leaseCheckpoint_granted_iff rfl net.world _).mpr ⟨hrow, hlease, h.token⟩
  obtain ⟨net₂, hfollows₂, hworld₂, hstage₂, -⟩ :=
    exists_exchanged evictable wire serializer first
    hfirst hstage₁ rfl hrpc₁ (by rw [hgranted]; rfl) rfl
  obtain ⟨net₃, hfollows₃, hworld₃, hstage₃, -⟩ :=
    exists_resumed evictable wire serializer first
    hfirst hstage₂ rfl (.taskSettled (.ok job.result)) trivial (by rintro now ⟨⟩) rfl
  rw [handle_leaseCheckpoint_of_granted rfl net₁.world _ hgranted, hworld₁] at hworld₂
  have hnow₃ : net₃.world.now = net.world.now := by
    rw [hworld₃, hworld₂]
    rfl
  have hlt : net₃.world.now < net₁.world.now + job.execute.options.leaseMilliseconds := by
    have htimeout := hjob.timeout
    rw [hnow₃, hworld₁]
    omega
  have hsends : job.execute.resume runner (.serializing net₁.world.now job.result)
      (.serialized (.ok (serializer.serialize job.result)) net₃.world.now) = some
        { runner := runner
          phase := .checkpointing (net₁.world.now + job.execute.options.leaseMilliseconds)
            job.result (serializer.serialize job.result)
          call := some (.checkpoint runner.workflowId (serializer.serialize job.result)
            runner.fencingToken runner.position job.execute.idempotencyKey) } := by
    simp only [ExecuteCall.resume, ExecuteCall.checkpointLoop, if_pos hlt]
  obtain ⟨net₄, hfollows₄, hworld₄, hstage₄, hrpc₄⟩ := exists_resumed evictable wire serializer
    first hfirst hstage₃ rfl
      (.serialized (.ok (serializer.serialize job.result)) net₃.world.now)
    rfl (by rintro now ⟨⟩; rfl) hsends
  -- The checkpoint is stored and acknowledged.
  have htoken : net₄.world.fencingTokens runner.workflowId = some runner.fencingToken := by
    rw [hworld₄, hworld₃, hworld₂]
    exact h.token
  have hrow₄ : net₄.world.checkpoints runner.workflowId runner.position = none := by
    rw [hworld₄, hworld₃, hworld₂]
    exact hrow
  have hhandle := handle_checkpoint_of_current htoken hrow₄
    (GrpcAdapter.setValue wire (serializer.serialize job.result)) job.execute.idempotencyKey
  obtain ⟨net₅, hfollows₅, hworld₅, hstage₅, -⟩ :=
    exists_exchanged evictable wire serializer first
    hfirst hstage₄ rfl (hrpc₄ _ rfl) (by rw [GrpcAdapter.request, hhandle]; rfl) rfl
  rw [GrpcAdapter.request, hhandle, hworld₄, hworld₃, hworld₂] at hworld₅
  refine ⟨net₅, (((hfollows₁.trans hfollows₂).trans hfollows₃).trans hfollows₄).trans hfollows₅,
    executed_of_returned h hstage₅ rfl ?_ (by rw [hworld₅]; rfl) (by rw [hworld₅]; rfl)
      ⟨_, by rw [hworld₅, World.setCheckpoint_checkpoints, if_pos ⟨rfl, rfl⟩], rfl, ?_⟩ ?_⟩
  · rw [World.outcome, hstored]
    rfl
  · rw [World.outcomeBytes, hstored, hjob.serialized]
    rfl
  · intro workflowId position hne
    rw [hworld₅, World.setCheckpoint_checkpoints, if_neg]
    · rfl
    · rintro ⟨rfl, rfl⟩
      exact hne rfl

/-- A step is told by the calls and the tables it starts from. -/
theorem Executed.of_same {job : Job V} {net₀ : Net V}
    (h : Executed serializer r runner job net₀ net') (hcalls : net₀.calls = net.calls)
    (hcheckpoints : net₀.world.checkpoints = net.world.checkpoints)
    (hworkflows : net₀.world.workflows = net.world.workflows)
    (htokens : net₀.world.fencingTokens = net.world.fencingTokens) :
    Executed serializer r runner job net net' := by
  have hvalue : net₀.world.storedValue = net.world.storedValue := by
    funext workflowId position
    rw [World.storedValue, hcheckpoints, World.storedValue]
  obtain ⟨hready, hreturned, hstored, helsewhere, hworkflows', htokens'⟩ := h
  simp only [World.outcome, World.outcomeBytes, hvalue, hcalls, hcheckpoints] at *
  exact ⟨hready, hreturned, hstored, helsewhere, hworkflows'.trans hworkflows,
    htokens'.trans htokens⟩

/-- **A step can be executed** where what is stored at its position, if anything,
is a value under its key. -/
theorem exists_executed (hfirst : first ≤ net.calls.length)
    (h : net.Ready r runner) (job : Job V)
    (hadmits : net.world.Admits runner.workflowId runner.position job.execute.idempotencyKey)
    (hjob : job.Storable serializer) :
    ∃ net', Follows evictable wire serializer r first net net' ∧
      Executed serializer r runner job net net' := by
  cases hrow : net.world.checkpoints runner.workflowId runner.position with
  | some row =>
      obtain ⟨hkey, hvalue⟩ := hadmits row hrow
      obtain ⟨value, hvalue⟩ := Option.ne_none_iff_exists'.mp hvalue
      exact exists_replayed hfirst h job hrow hkey hvalue
  | none =>
      obtain ⟨net₀, hfollows₀, hready₀, hcalls, hcheckpoints, hworkflows, htokens, hlease⟩ :=
        exists_expired evictable wire serializer first h runner.workflowId runner.position
      obtain ⟨net', hfollows, hexecuted⟩ :=
        exists_performed (hcalls ▸ hfirst) hready₀ job (hcheckpoints ▸ hrow) hlease hjob
      exact ⟨net', hfollows₀.trans hfollows,
        hexecuted.of_same hcalls hcheckpoints hworkflows htokens⟩

/-- **All steps can be executed**, one after another. -/
theorem exists_ran (jobs : List (Job V)) (hfirst : first ≤ net.calls.length)
    (h : net.Ready r runner)
    (hadmits : ∀ (i : Nat) job, jobs[i]? = some job →
      net.world.Admits runner.workflowId (runner.position + i) job.execute.idempotencyKey)
    (hjobs : ∀ job ∈ jobs, job.Storable serializer) :
    ∃ net', Follows evictable wire serializer r first net net' ∧
      Ran serializer r runner jobs net net' := by
  induction jobs generalizing net runner with
  | nil =>
      refine ⟨net, .start rfl, ?_, fun _ _ hc => hc, ?_, ?_, fun _ _ _ => rfl, rfl, rfl⟩
      · have hsame : runner.advanceBy 0 = runner := by simp [Runner.advanceBy]
        rw [List.length_nil, hsame]
        exact h
      · exact fun _ _ hi => by simp at hi
      · exact fun _ _ hi => by simp at hi
  | cons job jobs ih =>
      obtain ⟨net₁, hfollows₁, hexecuted⟩ : ∃ net₁,
          Follows evictable wire serializer r first net net₁ ∧
            Executed serializer r runner job net net₁ :=
        exists_executed hfirst h job (by simpa using hadmits 0 job rfl)
          (hjobs job List.mem_cons_self)
      obtain ⟨call₁, hcalls₁, hruns₁, hexecute₁, hreturned₁⟩ := hexecuted.returned
      have hplace : ∀ i : Nat, runner.advance.position + i =
        runner.position + (i + 1 : Nat) := by
        intro i
        simp only [Runner.advance]
        omega
      -- The steps to come find their positions as they were.
      have hsame : ∀ i : Nat,
          net₁.world.checkpoints runner.workflowId (runner.position + (i + 1 : Nat)) =
            net.world.checkpoints runner.workflowId (runner.position + (i + 1 : Nat)) := by
        intro i
        apply hexecuted.elsewhere
        rw [Ne, Prod.mk.injEq]
        omega
      have hvalue : ∀ i : Nat,
          net₁.world.storedValue runner.workflowId (runner.position + (i + 1 : Nat)) =
            net.world.storedValue runner.workflowId (runner.position + (i + 1 : Nat)) := by
        intro i
        rw [World.storedValue, hsame, World.storedValue]
      have houtcome : ∀ (i : Nat) job,
          net₁.world.outcome serializer runner.workflowId
            (runner.position + (i + 1 : Nat)) job =
            net.world.outcome serializer runner.workflowId (runner.position + (i + 1 : Nat))
              job := by
        intro i job
        rw [World.outcome, hvalue, World.outcome]
      have hbytes : ∀ (i : Nat) (job : Job V),
          net₁.world.outcomeBytes runner.workflowId (runner.position + (i + 1 : Nat)) job =
            net.world.outcomeBytes runner.workflowId (runner.position + (i + 1 : Nat)) job := by
        intro i job
        rw [World.outcomeBytes, hvalue, World.outcomeBytes]
      have hadmits₁ : ∀ (i : Nat) job, jobs[i]? = some job → net₁.world.Admits
          runner.advance.workflowId
            (runner.advance.position + i) job.execute.idempotencyKey := by
        intro i job' hi
        rw [hplace]
        show net₁.world.Admits runner.workflowId _ _
        rw [World.Admits, hsame]
        exact hadmits (i + 1) job' hi
      have hfirst₁ : first ≤ net₁.calls.length := by
        rw [hcalls₁, List.length_append]
        omega
      obtain ⟨net₂, hfollows₂, hran⟩ := ih hfirst₁ hexecuted.ready hadmits₁
        fun job' hjob => hjobs job' (List.mem_cons_of_mem _ hjob)
      refine ⟨net₂, hfollows₁.trans hfollows₂, ?_, ?_, ?_, ?_, ?_, ?_, ?_⟩
      case refine_1 =>
        rw [List.length_cons, Runner.advanceBy_succ]
        exact hran.ready
      case refine_2 =>
        intro c call hc
        apply hran.kept
        rw [hcalls₁]
        exact append_some hc
      case refine_3 =>
        intro i job' hi
        cases i with
        | zero =>
            obtain rfl := Option.some.inj hi
            refine ⟨call₁, hran.kept _ _ ?_, hruns₁, hexecute₁, by simpa using hreturned₁⟩
            rw [hcalls₁]
            exact List.getElem?_concat_length
        | succ i =>
            obtain ⟨call, hc, hruns, hexecute, hreturned⟩ := hran.returned i job' hi
            refine ⟨call, ?_, hruns, hexecute, ?_⟩
            · rw [← hc, hcalls₁, List.length_append, List.length_singleton]
              congr 1
              omega
            · rw [hreturned, hplace]
              exact congrArg Phase.returned (houtcome i job')
      case refine_4 =>
        intro i job' hi
        cases i with
        | zero =>
            obtain rfl := Option.some.inj hi
            obtain ⟨row, hrow, hkey, hstored⟩ := hexecuted.stored
            refine ⟨row, ?_, hkey, by simpa using hstored⟩
            rw [hran.elsewhere _ _ fun j hj heq => ?_]
            · simpa using hrow
            · rw [hplace, Prod.mk.injEq] at heq
              omega
        | succ i =>
            obtain ⟨row, hrow, hkey, hstored⟩ := hran.stored i job' hi
            rw [hplace] at hrow hstored
            exact ⟨row, hrow, hkey, hstored.trans (congrArg some (hbytes i job'))⟩
      case refine_5 =>
        intro workflowId position hne
        rw [hran.elsewhere workflowId position fun i hi => ?_]
        · exact hexecuted.elsewhere workflowId position (by simpa using hne 0 (by simp))
        · rw [hplace]
          exact hne (i + 1) (by simpa using hi)
      case refine_6 => exact hran.workflows.trans hexecuted.workflows
      case refine_7 => exact hran.tokens.trans hexecuted.tokens

/-! ## Its start and its end -/

variable (evictable wire serializer first)

/-- A worker that starts the workflow stands at its first step, under the
current token. -/
theorem exists_started (hasked : net.Asked) (workflowId : String)
    (name : Option String) (retention : Option Int) :
    ∃ net' token, Follows evictable wire serializer net.runners.length first net net' ∧
      net'.Ready net.runners.length (.start workflowId retention token) ∧
      net'.calls = net.calls ∧ net'.world.checkpoints = net.world.checkpoints ∧
      ∃ row, net'.world.workflows workflowId = some row := by
  obtain ⟨token, htoken⟩ : ∃ token,
    upsertFencingToken (net.world.fencingTokens workflowId) 1 = token := ⟨_, rfl⟩
  obtain ⟨request, hrequest⟩ : ∃ request,
    GrpcAdapter.request wire (.startWorkflow workflowId name) = request := ⟨_, rfl⟩
  have hhandle : request.handle (.calm "" true) net.world =
      (.ok (.workflowStart { fencingToken := token }),
        (net.world.setWorkflow workflowId (upsertWorkflow (net.world.workflows workflowId)
          workflowId WorkflowStatus.Running.toInt net.world.now
            (name.filter (· ≠ "")))).setFencingToken workflowId token) := by
    rw [← hrequest, GrpcAdapter.request, handle_workflowStart, run_createWorkflow rfl, htoken]
    rfl
  have hs : step evictable wire net (.start workflowId name retention (.calm "" true)) =
      some ((net.serve (.calm "" true) none request).addRunner
        (.start workflowId retention token)) := by
    simp only [step, hrequest, hhandle]
    rfl
  have hworld : (net.serve (.calm "" true) none request).world =
      (request.handle (.calm "" true) net.world).2 := rfl
  rw [hhandle] at hworld
  refine ⟨_, token,
    .of_step (.start workflowId name retention (.calm "" true)) trivial trivial rfl
    hs, ⟨List.getElem?_concat_length, ?_, ?_⟩, rfl, ?_, ?_⟩
  · show (net.serve _ none request).world.fencingTokens workflowId = some token
    rw [hworld]
    exact Function.update_self ..
  · intro call hcall hr
    -- The runners of the calls so far came before it.
    obtain ⟨c, hc⟩ := List.getElem?_of_mem hcall
    obtain ⟨runner, hrunner, -⟩ := hasked.runners c call hc
    have hlt := (List.getElem?_eq_some_iff.mp hrunner).1
    omega
  · show (net.serve _ none request).world.checkpoints = _
    rw [hworld]
    rfl
  · show ∃ row, (net.serve _ none request).world.workflows workflowId = some row
    rw [hworld]
    exact ⟨_, Function.update_self ..⟩

/-- The worker completes the workflow. -/
theorem exists_completed (h : net.Ready r runner) {row : Workflow}
    (hrow : net.world.workflows runner.workflowId = some row) :
    ∃ net', Follows evictable wire serializer r first net net' ∧ net'.calls = net.calls ∧
      net'.world.checkpoints = net.world.checkpoints ∧
      ∃ row, net'.world.workflows runner.workflowId = some row ∧
        row.status = WorkflowStatus.Completed.toInt ∧
        row.completedAt = some net'.world.now := by
  obtain ⟨data, hrequest, hplace, htoken⟩ : ∃ data : FinishWorkflowInput,
      GrpcAdapter.request wire runner.complete = .completeWorkflow data ∧
        data.workflowId = runner.workflowId ∧ data.fencingToken = runner.fencingToken :=
    ⟨_, rfl, rfl, rfl⟩
  obtain ⟨done, hdone⟩ : ∃ done : Workflow,
      { row with
        expireAt := some (wrappingAdd net.world.now data.expireAfter)
        status := WorkflowStatus.Completed.toInt
        completedAt := some net.world.now } = done := ⟨_, rfl⟩
  have hhandle : (Request.completeWorkflow data).handle (.calm "" true) net.world =
      (.ok .completeWorkflow, net.world.setWorkflow runner.workflowId done) := by
    rw [handle_completeWorkflow, run_finishWorkflow rfl, hplace, h.token, htoken]
    simp [hrow, hdone, Except.map]
  have hs : step evictable wire net
      (.serve (GrpcAdapter.request wire runner.complete) (.calm "" true)) =
        some (net.serve (.calm "" true) none (.completeWorkflow data)) := by
    rw [hrequest]
    rfl
  have hworld : (net.serve (.calm "" true) none (.completeWorkflow data)).world =
      ((Request.completeWorkflow data).handle (.calm "" true) net.world).2 := rfl
  rw [hhandle] at hworld
  refine ⟨_, .of_step (.serve (GrpcAdapter.request wire runner.complete) (.calm "" true)) rfl
    trivial ⟨runner, h.found, rfl⟩ hs, rfl, ?_, done, ?_, ?_, ?_⟩
  · rw [hworld]
    rfl
  · rw [hworld]
    exact Function.update_self ..
  · rw [← hdone]
  · rw [hworld, ← hdone]
    rfl

end Turns

/-! ## The workflow -/

/-- What a workflow taken up again leaves behind. -/
structure Resumed (serializer : Serializer V) (workflowId : String)
    (jobs : List (Job V)) (net net' : Net V) : Prop where
  returned : ∀ (i : Nat) job, jobs[i]? = some job → ∃ call,
    net'.calls[net.calls.length + i]? = some call ∧ call.runner = net.runners.length ∧
      call.execute = job.execute ∧
      call.phase = .returned (net.world.outcome serializer workflowId i job)
  stored : ∀ (i : Nat) job, jobs[i]? = some job → ∃ row,
    net'.world.checkpoints workflowId i = some row ∧
      row.idempotencyKey = job.execute.idempotencyKey ∧
      row.value = some (net.world.outcomeBytes workflowId i job)
  elsewhere : ∀ workflowId' position, (∀ i : Nat, i < jobs.length →
      (workflowId', position) ≠ (workflowId, (i : Int))) →
    net'.world.checkpoints workflowId' position = net.world.checkpoints workflowId' position
  completed : ∃ row, net'.world.workflows workflowId = some row ∧
    row.status = WorkflowStatus.Completed.toInt ∧ row.completedAt = some net'.world.now

/-- **A workflow can always be taken up again**: from whatever its workers have
come to, one that starts it now runs its steps, each to its end, and completes
it, with nobody's help but the server's. -/
theorem workflow_resumable (evictable : CachedLease → Int → Bool) (wire : Wire)
    (serializer : Serializer V) {net : Net V}
    (hr : Reachable (step evictable wire) anyStep initial net) (workflowId : String)
    (name : Option String) (retention : Option Int) (jobs : List (Job V))
    (hadmits : ∀ (i : Nat) job, jobs[i]? = some job →
      net.world.Admits workflowId i job.execute.idempotencyKey)
    (hjobs : ∀ job ∈ jobs, job.Storable serializer) :
    ∃ net', Follows evictable wire serializer net.runners.length net.calls.length net net' ∧
      Resumed serializer workflowId jobs net net' := by
  have hasked : net.Asked :=
    hr.invariant Net.Asked (fun _ => asked_initial) fun _ _ _ hasked _ hs =>
      asked_step (step_cases hs) hasked
  obtain ⟨net₁, token, hfollows₁, hready₁, hcalls₁, hcheckpoints₁, row, hrow⟩ :=
    exists_started evictable wire serializer net.calls.length hasked workflowId name retention
  have hplace : ∀ i : Nat, (Runner.start workflowId retention token).position + i = (i : Int) :=
    fun i => Int.zero_add i
  have hvalue : net₁.world.storedValue = net.world.storedValue := by
    funext workflowId position
    rw [World.storedValue, hcheckpoints₁, World.storedValue]
  have hadmits₁ : ∀ (i : Nat) job, jobs[i]? = some job → net₁.world.Admits workflowId
      ((Runner.start workflowId retention token).position + i) job.execute.idempotencyKey := by
    intro i job hi
    rw [hplace, World.Admits, hcheckpoints₁]
    exact hadmits i job hi
  have hlength : net.calls.length ≤ net₁.calls.length := by rw [hcalls₁]
  obtain ⟨net₂, hfollows₂, hran⟩ : ∃ net₂,
      Follows evictable wire serializer net.runners.length net.calls.length net₁ net₂ ∧
        Ran serializer net.runners.length (.start workflowId retention token) jobs net₁ net₂ :=
    exists_ran jobs hlength hready₁ hadmits₁ hjobs
  have hrow₂ : net₂.world.workflows workflowId = some row := by
    rw [hran.workflows]
    exact hrow
  obtain ⟨net₃, hfollows₃, hcalls₃, hcheckpoints₃, hcompleted⟩ :=
    exists_completed evictable wire serializer net.calls.length hran.ready hrow₂
  refine ⟨net₃, (hfollows₁.trans hfollows₂).trans hfollows₃, ?_, ?_, ?_, hcompleted⟩
  case refine_1 =>
    intro i job hi
    obtain ⟨call, hc, hruns, hexecute, hreturned⟩ := hran.returned i job hi
    rw [hplace, World.outcome, hvalue] at hreturned
    exact ⟨call, by rw [hcalls₃, ← hcalls₁, hc], hruns, hexecute, hreturned⟩
  case refine_2 =>
    intro i job hi
    obtain ⟨row, hfound, hkey, hstored⟩ := hran.stored i job hi
    rw [hplace] at hfound
    rw [hplace, World.outcomeBytes, hvalue] at hstored
    exact ⟨row, by rw [hcheckpoints₃]; exact hfound, hkey, hstored⟩
  case refine_3 =>
    intro workflowId' position hne
    rw [hcheckpoints₃, hran.elsewhere workflowId' position fun i hi => ?_, hcheckpoints₁]
    rw [hplace]
    exact hne i hi

end Net

/-- A step that returns the bytes, under the default lease timeout. -/
def bytesJob (idempotencyKey : String) (result : Bytes) : Job Bytes :=
  { execute :=
      { idempotencyKey := idempotencyKey, options := { leaseTimeout := none, onAbort := none } }
    result := result
    bytes := result }

theorem bytesJob_storable (idempotencyKey : String) (result : Bytes) :
    (bytesJob idempotencyKey result).Storable plain := by
  constructor
  case timeout => simp [bytesJob, TaskOptions.leaseMilliseconds, orElse]
  case serialized => rfl

/-- A worker stores the result of its first step, and crashes with the lease of
its second. -/
def crashedWorker : List (NetLabel Bytes) :=
  [.start "pay" none none (.calm "" true), .execute 0 (bytesJob "charge" [7]).execute,
    .handle 0 (.calm "" true), .deliver 0 0, .resume 0 (.taskSettled (.ok [7])),
    .resume 0 (.serialized (.ok (.bytes [7])) 0), .handle 1 (.calm "" true), .deliver 0 0,
    .execute 0 (bytesJob "ship" [8]).execute, .handle 2 (.calm "" true)]

/-- The steps are taken up again, the first of them with its result stored. -/
theorem crashed_worker_resumed :
    ∃ net net', exec (Net.step leaseExpired silentWire)
      (Net.start Bytes) crashedWorker = some net ∧
      net.world.storedValue "pay" 0 = some [7] ∧ (net.world.activeLease "pay" 1).isSome = true ∧
      Net.Follows leaseExpired silentWire plain net.runners.length net.calls.length net net' ∧
      Net.Resumed plain "pay" [bytesJob "charge" [9], bytesJob "ship" [8]] net net' := by
  obtain ⟨net, hnet⟩ : ∃ net, exec (Net.step leaseExpired silentWire) (Net.start Bytes)
      crashedWorker = some net := Option.isSome_iff_exists.mp (by decide +kernel)
  have hcharge : net.world.checkpoints "pay" 0 =
      some { idempotencyKey := "charge", value := some [7], createdAt := 0 } :=
    eq_of_outcome hnet (fun net => net.world.checkpoints "pay" 0) (by decide +kernel)
  have hship : net.world.checkpoints "pay" 1 = none :=
    eq_of_outcome hnet (fun net => net.world.checkpoints "pay" 1) (by decide +kernel)
  have hadmits : ∀ (i : Nat) job, [bytesJob "charge" [9], bytesJob "ship" [8]][i]? = some job →
      net.world.Admits "pay" i job.execute.idempotencyKey := by
    intro i job hi row hrow
    match i with
    | 0 =>
        obtain rfl := Option.some.inj hi
        obtain rfl := Option.some.inj (hcharge.symm.trans hrow)
        exact ⟨rfl, nofun⟩
    | 1 => exact absurd (hship.symm.trans hrow) nofun
  have hjobs : ∀ job ∈ [bytesJob "charge" [9], bytesJob "ship" [8]], job.Storable plain := by
    intro job hjob
    rcases List.mem_cons.mp hjob with rfl | hjob
    · exact bytesJob_storable _ _
    · rw [List.mem_singleton.mp hjob]
      exact bytesJob_storable _ _
  obtain ⟨net', hfollows, hresumed⟩ := Net.workflow_resumable leaseExpired silentWire plain
    (.of_exec (.start (Net.initial_start Bytes)) hnet) "pay" none none
    [bytesJob "charge" [9], bytesJob "ship" [8]] hadmits hjobs
  exact ⟨net, net', hnet,
    eq_of_outcome hnet (fun net => net.world.storedValue "pay" 0) (by decide +kernel),
    eq_of_outcome hnet (fun net => (net.world.activeLease "pay" 1).isSome) (by decide +kernel),
    hfollows, hresumed⟩

end IdempotentTransformer
