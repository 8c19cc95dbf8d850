import IdempotentTransformer.Server
import IdempotentTransformer.Client.Execute
import IdempotentTransformer.Library.Tenancy

/-!
# IdempotentTransformer.Network

Any number of workers and the server, with the requests and replies between
them.

A `Net` holds the stored world, the runners of all `startWorkflow` calls,
the `execute` calls made on them and the requests those calls sent, with
three histories: the requests handled, the tasks that ended, the calls that
returned.  A request is handled at any time after it was sent or never, its
reply is delivered at any time after that or never, and an adapter call may
reject at any time with whatever becomes of its request left open.  A
worker that crashes takes no further step.

* `step_cases` — what one step does;
* `server_reached` — the server of a network runs as `Server` says.
-/

namespace IdempotentTransformer

open Library

/-! ## Networks -/

/-- An `execute` call on a runner. -/
structure Call (V : Type) where
  runner : Nat
  /-- Where the runner stood when the call was made: what its log tag shows. -/
  workflowId : String
  position : Int
  execute : ExecuteCall
  phase : Phase V
  /-- The request its `await` waits for. -/
  awaiting : Option Nat

/-- A request a call sent, and its reply once it is handled. -/
structure Rpc where
  call : Nat
  request : Request
  reply : Option (Except HandlerError Response)

/-- Who sent a request: the call, and the runner it was made on. -/
structure Sender where
  call : Nat
  runner : Nat

/-- A handled request and its sender; one from elsewhere has none. -/
structure Served where
  handled : Handled
  sender : Option Sender

/-- A task that returned or whose promise settled. -/
structure TaskEnd (V : Type) where
  call : Nat
  workflowId : String
  position : Int
  result : Except Thrown V

/-- An `execute` call that returned. -/
structure Return (V : Type) where
  call : Nat
  workflowId : String
  position : Int
  value : V

/-- The workers, the server and what is between them; histories are latest
first. -/
structure Net (V : Type) where
  world : World
  runners : List Runner
  calls : List (Call V)
  rpcs : List Rpc
  served : List Served
  ended : List (TaskEnd V)
  returned : List (Return V)

inductive NetLabel (V : Type)
  /-- A worker starts a workflow. -/
  | start (workflowId : String) (name : Option String) (completedRetentionTime : Option Int)
      (env : Env)
  /-- A worker calls `execute` on a runner. -/
  | execute (runner : Nat) (execute : ExecuteCall)
  /-- The server handles a request a call sent. -/
  | handle (rpc : Nat) (env : Env)
  /-- A reply reaches its call. -/
  | deliver (call : Nat) (now : Int)
  /-- The adapter gives up on the request its call waits for. -/
  | fail (call : Nat) (err : ServiceError) (now : Int)
  /-- A call goes on by itself. -/
  | resume (call : Nat) (input : Input V)
  /-- The server handles a request from elsewhere, for no lease. -/
  | serve (request : Request) (env : Env)
  /-- The clock advances. -/
  | tick (elapsed : Nat)
  /-- The cache drops an entry. -/
  | evict (key : String)

/-- The task end an input reports to a call. -/
def TaskEnd.of {V : Type} (c : Nat) (runner : Runner) :
    Phase V → Input V → Option (TaskEnd V)
  | .running _, .taskSettled result =>
      some
        { call := c, workflowId := runner.workflowId, position := runner.position,
          result := result }
  | _, _ => none

/-- The return of a call. -/
def Return.of {V : Type} (c : Nat) (runner : Runner) : Phase V → Option (Return V)
  | .returned value =>
      some
        { call := c, workflowId := runner.workflowId, position := runner.position,
          value := value }
  | _ => none

namespace Net

variable {V : Type}

/-- Nothing has happened yet; the clock counts from the epoch. -/
def initial (net : Net V) : Prop :=
  ∃ now, 0 ≤ now ∧ net =
    { world := .empty now, runners := [], calls := [], rpcs := [], served := [], ended := [],
      returned := [] }

/-- Nothing has happened yet, at time zero. -/
def start (V : Type) : Net V :=
  { world := .empty 0, runners := [], calls := [], rpcs := [], served := [], ended := [],
    returned := [] }

theorem initial_start (V : Type) : (start V).initial := ⟨0, le_refl 0, rfl⟩

/-- The server alone. -/
def server (net : Net V) : Server :=
  { world := net.world, history := net.served.map Served.handled }

/-- The record of a request handled in a world. -/
def handledIn (w : World) (env : Env) (request : Request) : Handled :=
  { before := w, request := request, reply := (request.handle env w).1
    after := (request.handle env w).2 }

/-- Handle a request. -/
def serve (env : Env) (sender : Option Sender) (request : Request) (net : Net V) : Net V :=
  { net with
    world := (request.handle env net.world).2
    served := { handled := handledIn net.world env request, sender := sender } :: net.served }

/-- Handle a request a call sent, and keep the reply for it. -/
def answer (env : Env) (n : Nat) (rpc : Rpc) (call : Call V) (net : Net V) : Net V :=
  { net.serve env (some { call := rpc.call, runner := call.runner }) rpc.request with
    rpcs := net.rpcs.set n { rpc with reply := some (rpc.request.handle env net.world).1 } }

/-- A worker has started a workflow. -/
def addRunner (runner : Runner) (net : Net V) : Net V :=
  { net with runners := net.runners ++ [runner] }

/-- The requests a turn sends: one or none. -/
def sent (wire : Wire) (c : Nat) (turn : Turn V) : List Rpc :=
  (turn.call.map fun call =>
    { call := c, request := GrpcAdapter.request wire call, reply := none }).toList

/-- What a turn that sends a request then waits for. -/
def awaited (turn : Turn V) (net : Net V) : Option Nat := turn.call.map fun _ => net.rpcs.length

/-- A worker calls `execute`. -/
def addCall (wire : Wire) (r : Nat) (runner : Runner) (execute : ExecuteCall) (net : Net V) :
    Net V :=
  { net with
    calls := net.calls ++
      [{ runner := r, workflowId := runner.workflowId, position := runner.position
         execute := execute, phase := (execute.begin runner (V := V)).phase
         awaiting := net.awaited (execute.begin runner) }]
    rpcs := net.rpcs ++ sent wire net.calls.length (execute.begin runner (V := V)) }

/-- A call takes a turn. -/
def take (wire : Wire) (c : Nat) (call : Call V) (runner : Runner) (input : Input V)
    (turn : Turn V) (net : Net V) : Net V :=
  { net with
    runners := net.runners.set call.runner turn.runner
    calls := net.calls.set c { call with phase := turn.phase, awaiting := net.awaited turn }
    rpcs := net.rpcs ++ sent wire c turn
    ended := (TaskEnd.of c runner call.phase input).toList ++ net.ended
    returned := (Return.of c runner turn.phase).toList ++ net.returned }

/-- A call takes the turn an input allows. -/
def goOn (wire : Wire) (c : Nat) (call : Call V) (input : Input V) (net : Net V) :
    Option (Net V) :=
  match net.runners[call.runner]? with
  | some runner =>
    (call.execute.resume runner call.phase input).map fun turn =>
      net.take wire c call runner input turn
  | none => none

/-- How the request a call waits for has settled. -/
def outcome (call : Call V) (net : Net V) : Option (Except Thrown AdapterReply) :=
  match call.awaiting with
  | some n =>
    match net.rpcs[n]? with
    | some rpc => rpc.reply.bind GrpcAdapter.settle
    | none => none
  | none => none

/-- One step.  `evictable` says when the cache may drop an entry. -/
def step (evictable : CachedLease → Int → Bool) (wire : Wire) : Step (Net V) (NetLabel V)
  | net, .start workflowId name completedRetentionTime env =>
    let request := GrpcAdapter.request wire (.startWorkflow workflowId name)
    if env.fault = .none then
      match GrpcAdapter.settle (request.handle env net.world).1 with
      | some (.ok (.startWorkflow fencingToken)) =>
        some ((net.serve env none request).addRunner
          (.start workflowId completedRetentionTime fencingToken))
      | _ => none
    else none
  | net, .execute r execute =>
    match net.runners[r]? with
    | some runner => some (net.addCall wire r runner execute)
    | none => none
  | net, .handle n env =>
    match net.rpcs[n]? with
    | some rpc =>
      match net.calls[rpc.call]? with
      | some call =>
        if env.fault = .none ∧ rpc.reply = none then some (net.answer env n rpc call) else none
      | none => none
    | none => none
  | net, .deliver c now =>
    match net.calls[c]? with
    | some call =>
      match net.outcome call with
      | some result => net.goOn wire c call (.reply result now)
      | none => none
    | none => none
  | net, .fail c err now =>
    match net.calls[c]? with
    | some call =>
      if call.awaiting.isSome then
        net.goOn wire c call (.reply (.error (GrpcAdapter.handleError err)) now)
      else none
    | none => none
  | net, .resume c input =>
    match net.calls[c]? with
    | some call => if call.awaiting.isNone then net.goOn wire c call input else none
    | none => none
  | net, .serve request env =>
    if env.fault = .none ∧ request.leasePosition = none then
      some (net.serve env none request)
    else none
  | net, .tick elapsed => some { net with world := net.world.tick elapsed }
  | net, .evict key => (net.world.evict evictable key).map fun w => { net with world := w }

/-! ## What a step does -/

/-- What makes a call take a turn: a reply, a failed request, or itself. -/
inductive Prompts (net : Net V) (c : Nat) (call : Call V) : NetLabel V → Input V → Prop
  | delivered {result : Except Thrown AdapterReply} {now : Int}
      (ho : net.outcome call = some result) :
      Prompts net c call (.deliver c now) (.reply result now)
  | failed {err : ServiceError} {now : Int} (ha : call.awaiting.isSome) :
      Prompts net c call (.fail c err now) (.reply (.error (GrpcAdapter.handleError err)) now)
  | resumed {input : Input V}
      (ha : call.awaiting = none) : Prompts net c call (.resume c input) input

/-- The outcome of a step, by label. -/
inductive Stepped (evictable : CachedLease → Int → Bool) (wire : Wire) (net : Net V) :
    NetLabel V → Net V → Prop
  | started {workflowId : String} {name : Option String} {completedRetentionTime : Option Int}
      {env : Env} {token : Int} (hf : env.fault = .none)
      (ht : GrpcAdapter.settle
        ((GrpcAdapter.request wire (.startWorkflow workflowId name)).handle
        env net.world).1 = some (.ok (.startWorkflow token))) :
      Stepped evictable wire net (.start workflowId name completedRetentionTime env)
        ((net.serve env none
          (GrpcAdapter.request wire (.startWorkflow workflowId name))).addRunner
          (.start workflowId completedRetentionTime token))
  | called {r : Nat} {execute : ExecuteCall} {runner : Runner}
      (hr : net.runners[r]? = some runner) :
      Stepped evictable wire net (.execute r execute) (net.addCall wire r runner execute)
  | answered {n : Nat} {env : Env} {rpc : Rpc} {call : Call V} (hf : env.fault = .none)
      (hn : net.rpcs[n]? = some rpc) (hc : net.calls[rpc.call]? = some call)
      (hp : rpc.reply = none) :
      Stepped evictable wire net (.handle n env) (net.answer env n rpc call)
  | turned {l : NetLabel V} {c : Nat} {call : Call V} {runner : Runner} {input : Input V}
      {turn : Turn V} (hc : net.calls[c]? = some call)
      (hr : net.runners[call.runner]? = some runner) (hi : Prompts net c call l input)
      (ht : call.execute.resume runner call.phase input = some turn) :
      Stepped evictable wire net l (net.take wire c call runner input turn)
  | served {request : Request} {env : Env} (hf : env.fault = .none)
      (hp : request.leasePosition = none) :
      Stepped evictable wire net (.serve request env) (net.serve env none request)
  | ticked {elapsed : Nat} :
      Stepped evictable wire net (.tick elapsed) { net with world := net.world.tick elapsed }
  | evicted {key : String} {entry : CachedLease} (hc : net.world.cache key = some entry)
      (he : evictable entry net.world.now = true) :
      Stepped evictable wire net (.evict key) { net with world := net.world.setCache key none }

theorem goOn_eq_some {wire : Wire} {c : Nat} {call : Call V} {input : Input V}
    {net net' : Net V} (h : net.goOn wire c call input = some net') :
    ∃ runner turn, net.runners[call.runner]? = some runner ∧
      call.execute.resume runner call.phase input = some turn ∧
      net' = net.take wire c call runner input turn := by
  unfold goOn at h
  cases hr : net.runners[call.runner]? with
  | none =>
      rw [hr] at h
      contradiction
  | some runner =>
      simp only [hr, Option.map_eq_some_iff] at h
      obtain ⟨turn, ht, rfl⟩ := h
      exact ⟨runner, turn, rfl, ht, rfl⟩

/-- Every step does one of these. -/
theorem step_cases {evictable : CachedLease → Int → Bool} {wire : Wire} {net net' : Net V}
    {l : NetLabel V} (h : step evictable wire net l = some net') :
    Stepped evictable wire net l net' := by
  cases l with
  | start workflowId name completedRetentionTime env =>
      simp only [step] at h
      split at h
      · next hf =>
          split at h
          · next token ht =>
              rw [← Option.some.inj h]
              exact .started hf ht
          · contradiction
      · contradiction
  | execute r execute =>
      simp only [step] at h
      split at h
      · next runner hr =>
          rw [← Option.some.inj h]
          exact .called hr
      · contradiction
  | handle n env =>
      simp only [step] at h
      split at h
      · next rpc hn =>
          split at h
          · next call hc =>
              split at h
              · next hp =>
                  rw [← Option.some.inj h]
                  exact .answered hp.1 hn hc hp.2
              · contradiction
          · contradiction
      · contradiction
  | deliver c now =>
      simp only [step] at h
      split at h
      · next call hc =>
          split at h
          · next result ho =>
              obtain ⟨runner, turn, hr, ht, rfl⟩ := goOn_eq_some h
              exact .turned hc hr (.delivered ho) ht
          · contradiction
      · contradiction
  | fail c err now =>
      simp only [step] at h
      split at h
      · next call hc =>
          split at h
          · next ha =>
              obtain ⟨runner, turn, hr, ht, rfl⟩ := goOn_eq_some h
              exact .turned hc hr (.failed ha) ht
          · contradiction
      · contradiction
  | resume c input =>
      simp only [step] at h
      split at h
      · next call hc =>
          split at h
          · next ha =>
              obtain ⟨runner, turn, hr, ht, rfl⟩ := goOn_eq_some h
              exact .turned hc hr (.resumed (Option.isNone_iff_eq_none.mp ha)) ht
          · contradiction
      · contradiction
  | serve request env =>
      simp only [step] at h
      split at h
      · next hp =>
          rw [← Option.some.inj h]
          exact .served hp.1 hp.2
      · contradiction
  | tick elapsed =>
      rw [← Option.some.inj h]
      exact .ticked
  | evict key =>
      simp only [step, Option.map_eq_some_iff] at h
      obtain ⟨w, hw, rfl⟩ := h
      obtain ⟨entry, hc, he, rfl⟩ := World.evict_eq_some hw
      exact .evicted hc he

/-! ## The server of a network -/

@[simp] theorem serve_server (env : Env) (sender : Option Sender) (request : Request)
    (net : Net V) : (net.serve env sender request).server = net.server.record env request := rfl

/-- **The server of a network runs as `Server` says**: whatever the workers do,
what it goes through is a run of requests, ticks and evictions. -/
theorem server_reached {evictable : CachedLease → Int → Bool} {wire : Wire}
    {ok : Net V → NetLabel V → Prop} {net : Net V}
    (hr : Reachable (step evictable wire) ok initial net) : net.server.Reached evictable := by
  have handled (s : Server) (request : Request) (env : Env) (hf : env.fault = .none) :
      Reachable (Server.step evictable) anyStep (· = s) (s.record env request) := by
    have hs : Server.step evictable s (.handle request env) =
      some (s.record env request) := if_pos hf
    exact .step (.start rfl) trivial hs
  refine hr.map Net.server ?_ ?_
  · intro net hi
    obtain ⟨now, -, rfl⟩ := hi
    exact ⟨now, rfl⟩
  · intro net l net' _ _ hs
    cases step_cases hs with
    | started hf ht => exact handled _ _ _ hf
    | answered hf hn hc hp => exact handled _ _ _ hf
    | served hf hp => exact handled _ _ _ hf
    | called hr => exact .start rfl
    | turned hc hr hi ht => exact .start rfl
    | @ticked elapsed =>
        have hs : Server.step evictable net.server (.tick elapsed) =
            some { net.server with world := net.world.tick elapsed } := rfl
        exact .step (.start rfl) trivial hs
    | @evicted key entry hc he =>
        have hs : Server.step evictable net.server (.evict key) =
            some { net.server with world := net.world.setCache key none } := by
          simp [Server.step, World.evict, server, hc, he]
        exact .step (.start rfl) trivial hs

end Net

/-! ## Who holds a position -/

/-- What a handled request does to the tenancy of a position, among the
senders `tenant` tells apart. -/
def Served.move (tenant : Sender → Nat) (workflowId : String) (position : Int) (s : Served) :
    Option (Move Nat LeasedCheckpointValue) :=
  s.sender.bind fun sender =>
    match s.handled.grant workflowId position with
    | some (_, lease) => some (.grant (tenant sender) lease)
    | none =>
      if s.handled.request.endsLease ∧
          s.handled.request.leasePosition = some (workflowId, position) then
        some (.giveBack (tenant sender))
      else none

namespace Net

variable {V : Type}

/-- The grants and returns of a position. -/
def moves (tenant : Sender → Nat) (net : Net V) (workflowId : String) (position : Int) :
    List (Move Nat LeasedCheckpointValue) :=
  net.served.filterMap (Served.move tenant workflowId position)

/-- The lease a sender still has of a position. -/
def leaseOf (tenant : Sender → Nat) (net : Net V) (i : Nat) (workflowId : String)
    (position : Int) : Option LeasedCheckpointValue :=
  outstanding i (net.moves tenant workflowId position)

/-- **Tenancy**: a lease a sender still has in force is the one cached, and no
other was granted since. -/
def Tenancy (tenant : Sender → Nat) (net : Net V) (workflowId : String) (position : Int) :
    Prop :=
  Exclusive (fun lease => ¬ lease.Expired net.world.now) (net.moves tenant workflowId position)
    (net.world.leaseAt workflowId position)

section Serve

variable {env : Env} (hf : env.fault = .none) (net : Net V) (sender : Sender)
  (request : Request) (tenant : Sender → Nat) (workflowId : String) (position : Int)

theorem moves_serve (sender : Option Sender) :
    (net.serve env sender request).moves tenant workflowId position =
      (Served.move tenant workflowId position
        { handled := handledIn net.world env request, sender := sender }).toList ++
        net.moves tenant workflowId position := by
  simp only [moves, serve, List.filterMap_cons]
  split <;> simp_all

include hf

/-- What a handled request of a sender does to a position: it is given back,
granted, or left alone. -/
theorem serve_tenancy :
    (request.endsLease = true ∧ request.leasePosition = some (workflowId, position) ∧
        (net.serve env (some sender) request).moves tenant workflowId position =
          .giveBack (tenant sender) :: net.moves tenant workflowId position ∧
        (net.serve env (some sender) request).world.leaseAt workflowId position = none) ∨
      (∃ data, request = .leaseCheckpoint data ∧ data.workflowId = workflowId ∧
        data.position = position ∧ (request.handle env net.world).1 = granted ∧
        (net.serve env (some sender) request).moves tenant workflowId position =
          .grant (tenant sender) (grantedLease data.leaseTimeout net.world.now).lease ::
            net.moves tenant workflowId position ∧
        (net.serve env (some sender) request).world.leaseAt workflowId position =
          some (grantedLease data.leaseTimeout net.world.now).lease) ∨
      ((request.leasePosition = some (workflowId, position) → request.endsLease = false) ∧
        (net.serve env (some sender) request).moves tenant workflowId position =
          net.moves tenant workflowId position ∧
        (net.serve env (some sender) request).world.leaseAt workflowId position =
          net.world.leaseAt workflowId position) := by
  rw [moves_serve]
  simp only [Served.move, Option.bind_some]
  rcases handle_cache_cases hf net.world request workflowId position with
    ⟨he, hp, hc⟩ | ⟨data, rfl, rfl, rfl, hg, hc⟩ | ⟨hc, hno⟩
  · have hgrant : (handledIn net.world env request).grant workflowId position = none := by
      cases request <;> first | rfl | contradiction
    refine .inl ⟨he, hp, ?_, ?_⟩
    · rw [hgrant]
      simp [handledIn, he, hp]
    · simp [World.leaseAt, serve, hc]
  · refine .inr (.inl ⟨data, rfl, rfl, rfl, hg, ?_, ?_⟩)
    · simp [handledIn, Handled.grant, hg]
    · simp [World.leaseAt, serve, hc]
  · refine .inr (.inr ⟨fun hp => (hno hp).1, ?_, ?_⟩)
    · have hends : ¬ (request.endsLease = true ∧
          request.leasePosition = some (workflowId, position)) := by
        intro h
        rw [(hno h.2).1] at h
        exact absurd h.1 Bool.false_ne_true
      rw [Handled.grant_eq_none_of_ne (h := handledIn net.world env request) hno]
      simp [handledIn, hends]
    · simp [World.leaseAt, serve, hc]

/-- A request for no lease leaves every position alone. -/
theorem serve_elsewhere (hp : request.leasePosition = none) :
    (net.serve env none request).moves tenant workflowId position =
        net.moves tenant workflowId position ∧
      (net.serve env none request).world.leaseAt workflowId position =
        net.world.leaseAt workflowId position := by
  constructor
  · rw [moves_serve]
    rfl
  · rcases handle_cache_cases hf net.world request workflowId position with
      ⟨-, hp', -⟩ | ⟨data, rfl, -⟩ | ⟨hc, -⟩
    · rw [hp] at hp'
      contradiction
    · contradiction
    · simp [World.leaseAt, serve, hc]

end Serve

@[simp] theorem serve_now (env : Env) (sender : Option Sender)
    (request : Request) (net : Net V) :
    (net.serve env sender request).world.now = net.world.now := handle_now env request net.world

/-- Tenancy is about the clock, the history of a position and its cached lease. -/
theorem Tenancy.congr {tenant : Sender → Nat} {net net' : Net V} {workflowId : String}
    {position : Int} (h : net.Tenancy tenant workflowId position)
    (hnow : net'.world.now = net.world.now)
    (hmoves : net'.moves tenant workflowId position = net.moves tenant workflowId position)
    (hlease : net'.world.leaseAt workflowId position = net.world.leaseAt workflowId position) :
    net'.Tenancy tenant workflowId position := by
  unfold Tenancy
  rw [hnow, hmoves, hlease]
  exact h

/-- **Tenancy is kept** as long as nobody gives a position back while somebody
else has it in force, and no lease in force is evicted. -/
theorem tenancy_step {evictable : CachedLease → Int → Bool} {wire : Wire} {net net' : Net V}
    {l : NetLabel V} (hs : Stepped evictable wire net l net') {tenant : Sender → Nat}
    {workflowId : String} {position : Int} (h : net.Tenancy tenant workflowId position)
    (hgive : ∀ n env rpc call, l = .handle n env → net.rpcs[n]? = some rpc →
      net.calls[rpc.call]? = some call → rpc.request.endsLease = true →
      rpc.request.leasePosition = some (workflowId, position) →
      ∀ j lease, j ≠ tenant { call := rpc.call, runner := call.runner } →
        net.leaseOf tenant j workflowId position = some lease → lease.Expired net.world.now)
    (hevict : ∀ key entry, l = .evict key → net.world.cache key = some entry →
      evictable entry net.world.now = true →
        key = generateLeasedCheckpointKey workflowId position →
      entry.lease.Expired net.world.now) :
    net'.Tenancy tenant workflowId position := by
  cases hs with
  | called hr => exact h
  | turned hc hr hi ht => exact h
  | started hf ht =>
      obtain ⟨hmoves, hlease⟩ :=
        serve_elsewhere hf net (.workflowStart _) tenant workflowId position rfl
      exact h.congr (serve_now _ none _ net) hmoves hlease
  | served hf hp =>
      obtain ⟨hmoves, hlease⟩ := serve_elsewhere hf net _ tenant workflowId position hp
      exact h.congr (serve_now ..) hmoves hlease
  | @answered n env rpc call hf hn hc hp =>
      have hnow : (net.answer env n rpc call).world.now = net.world.now :=
        handle_now env rpc.request net.world
      rcases serve_tenancy hf net { call := rpc.call, runner := call.runner } rpc.request tenant
        workflowId position with
        ⟨he, hposition, hmoves, hlease⟩ | ⟨data, hdata, rfl, rfl, hg, hmoves, hlease⟩ |
          ⟨-, hmoves, hlease⟩
      · unfold Tenancy
        rw [hnow, show (net.answer env n rpc call).moves tenant workflowId position =
          _ from hmoves,
          show (net.answer env n rpc call).world.leaseAt workflowId position = _ from hlease]
        apply Exclusive.giveBack
        intro j lease hj ho
        rw [not_not]
        exact hgive n env rpc call rfl hn hc he hposition j lease hj ho
      · unfold Tenancy
        rw [hnow,
          show (net.answer env n rpc call).moves tenant data.workflowId data.position =
            _ from hmoves,
          show (net.answer env n rpc call).world.leaseAt data.workflowId data.position =
            _ from hlease]
        apply Exclusive.grant h
        intro lease hl
        rw [not_not]
        rw [hdata, handle_leaseCheckpoint_granted_iff hf] at hg
        exact World.activeLease_eq_none_iff.mp hg.2.1 lease hl
      · exact h.congr hnow hmoves hlease
  | @ticked elapsed =>
      refine Exclusive.mono h fun lease hlive hexpired => hlive (hexpired.mono ?_)
      simp [World.tick]
  | @evicted key entry hc he =>
      by_cases hkey : key = generateLeasedCheckpointKey workflowId position
      · apply Exclusive.drop h
        intro lease hl
        rw [not_not]
        have hlease : entry.lease = lease := by
          simpa [World.leaseAt, ← hkey, hc] using hl
        exact hlease ▸ hevict key entry rfl hc he hkey
      · refine h.congr rfl rfl ?_
        simp [World.leaseAt, World.setCache_cache, Ne.symm hkey]

end Net

end IdempotentTransformer
