import IdempotentTransformer.Returns

/-!
# IdempotentTransformer.Attempts

Attempts at a workflow tree, one after another.

A step of a workflow does something of its own, or runs a workflow of its own:
it starts that, executes its steps in order, completes it and returns (`Task`,
`Steps`).  An attempt runs the tree from its root.  It ends when the root
returns or throws, or is cut at any moment; the requests it sent are handled
while it goes on or afterwards, until the next attempt begins.

`Attempts` is the machine: a `Frame` for every workflow started and not
left, innermost first, the requests of the current attempt, and a log.
-/

namespace IdempotentTransformer

open Library

/-! ## Workflow trees -/

/-- The arguments of `startWorkflow`. -/
structure StartCall where
  workflowId : String
  name : Option String
  completedRetentionTime : Option Int
deriving DecidableEq

mutual

/-- What a step does: something of its own, or a workflow. -/
inductive Task
  | leaf
  | workflow (start : StartCall) (steps : Steps)

/-- The `execute` calls of a workflow, in order. -/
inductive Steps
  | done
  | step (execute : ExecuteCall) (task : Task) (rest : Steps)

end

mutual

/-- The workflows a task starts. -/
def Task.ids : Task → List String
  | .leaf => []
  | .workflow start steps => start.workflowId :: steps.ids

def Steps.ids : Steps → List String
  | .done => []
  | .step _ task rest => task.ids ++ rest.ids

end

mutual

/-- Every call uses the idempotency key of its position. -/
def Task.keyed (key : String → Int → String) : Task → Bool
  | .leaf => true
  | .workflow start steps => steps.keyed key start.workflowId 0

def Steps.keyed (key : String → Int → String) (workflowId : String) (position : Int) :
    Steps → Bool
  | .done => true
  | .step execute task rest =>
      execute.idempotencyKey == key workflowId position && task.keyed key &&
        rest.keyed key workflowId (position + 1)

end

/-! ## The machine -/

/-- An `execute` call going on, and what it runs: nothing more once its inner
workflow was started. -/
structure Activity (V : Type) where
  execute : ExecuteCall
  task : Option Task
  phase : Phase V
  /-- The request its `await` waits for. -/
  awaiting : Option Nat

/-- The call runs something of its own. -/
def Activity.isLeaf {V : Type} (a : Activity V) : Bool :=
  match a.task with
  | some .leaf => true
  | _ => false

inductive Progress (V : Type)
  /-- Between two calls. -/
  | idle
  | executing (activity : Activity V)
  /-- `await runner.complete()` -/
  | completing (message : Nat)

/-- A workflow started and not left yet. -/
structure Frame (V : Type) where
  runner : Runner
  /-- The steps after the current one. -/
  steps : Steps
  status : Progress V

/-- A request of the current attempt, and its reply once it is handled. -/
structure Message where
  request : Request
  reply : Option (Except HandlerError Response)

/-- What happens at a position. -/
inductive Fact (V : Type)
  /-- A leaf's body begins. -/
  | ran
  /-- The body settles successfully. -/
  | completed (leaf : Bool) (value : V)
  /-- The server stores a value. -/
  | stored (value : Bytes)
  /-- The call returns. -/
  | returned (value : V)
  /-- The attempt is cut while a result waits to be acknowledged. -/
  | cut
deriving DecidableEq

structure Entry (V : Type) where
  attempt : Nat
  workflowId : String
  position : Int
  fact : Fact V
deriving DecidableEq

/-- The attempts so far. -/
structure Attempts (V : Type) where
  world : World
  /-- How many attempts have begun. -/
  attempt : Nat
  /-- Innermost first. -/
  frames : List (Frame V)
  /-- `await startWorkflow`: its request, and what it is to start. -/
  opening : Option (Nat × StartCall × Steps)
  sent : List Message
  /-- Latest first. -/
  log : List (Entry V)

inductive AttemptLabel (V : Type)
  /-- An attempt begins. -/
  | begin (start : StartCall) (steps : Steps)
  /-- The server handles a request. -/
  | handle (message : Nat) (env : Env)
  /-- The reply to `startWorkflow` arrives. -/
  | enter
  /-- The next step is executed. -/
  | execute
  /-- A running step starts its workflow. -/
  | startInner
  | deliver (now : Int)
  | fail (err : ServiceError) (now : Int)
  | resume (input : Input V)
  /-- The steps are done: the workflow is completed. -/
  | complete
  /-- The reply to that arrives, and the body returns. -/
  | leave (value : V)
  /-- `startWorkflow` or `complete` rejects, and the body with it. -/
  | reject (err : Thrown)
  /-- A call has thrown, and the body with it. -/
  | unwind
  /-- The attempt is cut. -/
  | crash
  | tick (elapsed : Nat)
  | evict (key : String)

namespace Attempts

variable {V : Type}

def initial (s : Attempts V) : Prop :=
  ∃ now, s =
    { world := .empty now, attempt := 0, frames := [], opening := none, sent := [], log := [] }

/-- Nothing has happened yet, at time zero. -/
def start (V : Type) : Attempts V :=
  { world := .empty 0, attempt := 0, frames := [], opening := none, sent := [], log := [] }

theorem initial_start (V : Type) : (start V).initial := ⟨0, rfl⟩

def message (wire : Wire) (call : AdapterCall) : Message :=
  { request := GrpcAdapter.request wire call, reply := none }

/-- How a request has settled. -/
def outcome (n : Nat) (s : Attempts V) : Option (Except Thrown AdapterReply) :=
  match s.sent[n]? with
  | some m => m.reply.bind GrpcAdapter.settle
  | none => none

/-- The value a checkpoint request stores when it is handled. -/
def storedFact (before after : World) : Request → List (String × Int × Bytes)
  | .checkpoint data =>
    match before.checkpoints data.workflowId data.position,
        (after.checkpoints data.workflowId data.position).bind Checkpoint.value with
    | none, some value => [(data.workflowId, data.position, value)]
    | _, _ => []
  | _ => []

/-- The server handles a request of the current attempt. -/
def answer (env : Env) (n : Nat) (m : Message) (s : Attempts V) : Attempts V :=
  { s with
    world := (m.request.handle env s.world).2
    sent := s.sent.set n { m with reply := some (m.request.handle env s.world).1 }
    log := (storedFact s.world (m.request.handle env s.world).2 m.request).map
      (fun (workflowId, position, value) =>
        { attempt := s.attempt, workflowId := workflowId, position := position
          fact := .stored value }) ++ s.log }

/-- What a turn of a call adds to the log. -/
def facts (a : Activity V) (input : Input V) (turn : Turn V) : List (Fact V) :=
  (match turn.phase with
    | .returned value => [.returned value]
    | .running _ => if a.isLeaf then [.ran] else []
    | _ => []) ++
  match a.phase, input with
  | .running _, .taskSettled (.ok value) => [.completed a.isLeaf value]
  | _, _ => []

/-- Where the workflow stands after a turn of its call. -/
def statusAfter (a : Activity V) (turn : Turn V) (sent : Nat) : Progress V :=
  match turn.phase with
  | .returned _ => .idle
  | phase => .executing { a with phase := phase, awaiting := turn.call.map fun _ => sent }

/-- The innermost call takes a turn. -/
def take (wire : Wire) (f : Frame V) (fs : List (Frame V)) (a : Activity V) (input : Input V)
    (turn : Turn V) (s : Attempts V) : Attempts V :=
  { s with
    frames := { f with runner := turn.runner, status := statusAfter a turn s.sent.length } :: fs
    sent := s.sent ++ (turn.call.map (message wire)).toList
    log := (facts a input turn).map
      (fun fact =>
        { attempt := s.attempt, workflowId := f.runner.workflowId, position := f.runner.position
          fact := fact }) ++ s.log }

/-- The innermost call takes the turn an input allows. -/
def goOn (wire : Wire) (input : Input V) (s : Attempts V) : Option (Attempts V) :=
  match s.frames with
  | f :: fs =>
    match f.status with
    | .executing a =>
      (a.execute.resume f.runner a.phase input).map fun turn => s.take wire f fs a input turn
    | _ => none
  | [] => none

/-- A body settles: the call that runs it goes on, or the attempt is over. -/
def settle (wire : Wire) (result : Except Thrown V) (s : Attempts V) : Option (Attempts V) :=
  match s.frames with
  | [] => some s
  | _ :: _ => s.goOn wire (.taskSettled result)

/-- The innermost call. -/
def current (s : Attempts V) : Option (Activity V) :=
  match s.frames with
  | f :: _ =>
    match f.status with
    | .executing a => some a
    | _ => none
  | [] => none

/-- An attempt begins. -/
def begun (wire : Wire) (start : StartCall) (steps : Steps) (s : Attempts V) : Attempts V :=
  { s with
    attempt := s.attempt + 1
    opening := some (0, start, steps)
    sent := [message wire (.startWorkflow start.workflowId start.name)] }

/-- A workflow was started. -/
def entered (start : StartCall) (steps : Steps) (fencingToken : Int) (s : Attempts V) :
    Attempts V :=
  { s with
    opening := none
    frames :=
      { runner := .start start.workflowId start.completedRetentionTime fencingToken
        steps := steps, status := .idle } :: s.frames }

/-- The next step is executed. -/
def called (wire : Wire) (f : Frame V) (fs : List (Frame V))
    (execute : ExecuteCall) (task : Task) (rest : Steps) (s : Attempts V) : Attempts V :=
  let turn : Turn V := execute.begin f.runner
  { s with
    frames :=
      { f with
        steps := rest
        status := .executing
          { execute := execute, task := some task, phase := turn.phase
            awaiting := turn.call.map fun _ => s.sent.length } } :: fs
    sent := s.sent ++ (turn.call.map (message wire)).toList }

/-- A running step starts its workflow. -/
def opened (wire : Wire) (f : Frame V) (fs : List (Frame V)) (a : Activity V)
    (start : StartCall) (steps : Steps) (s : Attempts V) : Attempts V :=
  { s with
    frames := { f with status := .executing { a with task := none } } :: fs
    opening := some (s.sent.length, start, steps)
    sent := s.sent ++ [message wire (.startWorkflow start.workflowId start.name)] }

/-- A workflow whose steps are done is completed. -/
def completing (wire : Wire) (f : Frame V) (fs : List (Frame V))
    (s : Attempts V) : Attempts V :=
  { s with
    frames := { f with status := .completing s.sent.length } :: fs
    sent := s.sent ++ [message wire f.runner.complete] }

/-- The results that wait to be acknowledged. -/
def cuts (s : Attempts V) : List (Entry V) :=
  s.frames.filterMap fun f =>
    match f.status with
    | .executing a =>
      match a.phase.taskResult? with
      | some (.ok _) =>
        some
          { attempt := s.attempt, workflowId := f.runner.workflowId
            position := f.runner.position, fact := .cut }
      | _ => none
    | _ => none

/-- One step. -/
def step (evictable : CachedLease → Int → Bool) (wire : Wire) :
    Step (Attempts V) (AttemptLabel V)
  | s, .begin start steps =>
    match s.frames, s.opening with
    | [], none => some (s.begun wire start steps)
    | _, _ => none
  | s, .handle n env =>
    match s.sent[n]? with
    | some m => if env.fault = .none ∧ m.reply = none then some (s.answer env n m) else none
    | none => none
  | s, .enter =>
    match s.opening with
    | some (n, start, steps) =>
      match s.outcome n with
      | some (.ok (.startWorkflow fencingToken)) => some (s.entered start steps fencingToken)
      | _ => none
    | none => none
  | s, .execute =>
    match s.frames with
    | f :: fs =>
      match f.status, f.steps with
      | .idle, .step execute task rest => some (s.called wire f fs execute task rest)
      | _, _ => none
    | [] => none
  | s, .startInner =>
    match s.frames with
    | f :: fs =>
      match f.status with
      | .executing a =>
        match a.phase, a.task with
        | .running _, some (.workflow start steps) => some (s.opened wire f fs a start steps)
        | _, _ => none
      | _ => none
    | [] => none
  | s, .deliver now =>
    match s.current with
    | some a =>
      match a.awaiting.bind s.outcome with
      | some result => s.goOn wire (.reply result now)
      | none => none
    | none => none
  | s, .fail err now =>
    match s.current with
    | some a =>
      if a.awaiting.isSome then s.goOn wire (.reply (.error (GrpcAdapter.handleError err)) now)
      else none
    | none => none
  | s, .resume input =>
    match s.current with
    | some a =>
      match a.phase with
      | .running _ => if a.isLeaf then s.goOn wire input else none
      | _ => if a.awaiting.isNone then s.goOn wire input else none
    | none => none
  | s, .complete =>
    match s.frames with
    | f :: fs =>
      match f.status, f.steps with
      | .idle, .done => some (s.completing wire f fs)
      | _, _ => none
    | [] => none
  | s, .leave value =>
    match s.frames with
    | f :: fs =>
      match f.status with
      | .completing n =>
        match s.outcome n with
        | some (.ok .completeWorkflow) => settle wire (.ok value) { s with frames := fs }
        | _ => none
      | _ => none
    | [] => none
  | s, .reject err =>
    match s.opening with
    | some _ => settle wire (.error err) { s with opening := none }
    | none =>
      match s.frames with
      | f :: fs =>
        match f.status with
        | .completing _ => settle wire (.error err) { s with frames := fs }
        | _ => none
      | [] => none
  | s, .unwind =>
    match s.frames with
    | f :: fs =>
      match f.status with
      | .executing a =>
        match a.phase with
        | .thrown err => settle wire (.error err) { s with frames := fs }
        | _ => none
      | _ => none
    | [] => none
  | s, .crash => some { s with frames := [], opening := none, log := s.cuts ++ s.log }
  | s, .tick elapsed => some { s with world := s.world.tick elapsed }
  | s, .evict key => (s.world.evict evictable key).map fun w => { s with world := w }

/-! ## What a step does -/

/-- What the innermost call goes on with. -/
inductive Prompts (s : Attempts V) (a : Activity V) : AttemptLabel V → Input V → Prop
  | delivered {n : Nat} {result : Except Thrown AdapterReply} {now : Int}
      (ha : a.awaiting = some n) (ho : s.outcome n = some result) :
      Prompts s a (.deliver now) (.reply result now)
  | failed {err : ServiceError} {now : Int} (ha : a.awaiting.isSome) :
      Prompts s a (.fail err now) (.reply (.error (GrpcAdapter.handleError err)) now)
  | resumed {input : Input V}
      (ha : (∃ beforeExecution, a.phase = .running beforeExecution) ∧ a.isLeaf = true ∨
        a.awaiting = none) :
      Prompts s a (.resume input) input

/-- A workflow is left, or was not started after all. -/
inductive Left (s : Attempts V) : Except Thrown V → Attempts V → Prop
  | returned {f : Frame V} {fs : List (Frame V)} {n : Nat} {value : V} (hs : s.frames = f :: fs)
      (hf : f.status = .completing n) : Left s (.ok value) { s with frames := fs }
  | unopened {o : Nat × StartCall × Steps} {err : Thrown} (ho : s.opening = some o) :
      Left s (.error err) { s with opening := none }
  | uncompleted {f : Frame V} {fs : List (Frame V)} {n : Nat} {err : Thrown}
      (hs : s.frames = f :: fs) (hf : f.status = .completing n) :
      Left s (.error err) { s with frames := fs }
  | unwound {f : Frame V} {fs : List (Frame V)} {a : Activity V} {err : Thrown}
      (hs : s.frames = f :: fs) (hf : f.status = .executing a) (ha : a.phase = .thrown err) :
      Left s (.error err) { s with frames := fs }

/-- The innermost frame is gone, and its call had no result, or the workflow to
start is. -/
theorem Left.cases {s s' : Attempts V} {result : Except Thrown V} (h : Left s result s') :
    (∃ f fs, s.frames = f :: fs ∧
      (∀ a, f.status = .executing a → a.phase.taskResult? = none) ∧
        s' = { s with frames := fs }) ∨
      s' = { s with opening := none } := by
  cases h with
  | returned hs hf =>
      refine .inl ⟨_, _, hs, fun a hstatus => ?_, rfl⟩
      rw [hf] at hstatus
      contradiction
  | unopened ho => exact .inr rfl
  | uncompleted hs hf =>
      refine .inl ⟨_, _, hs, fun a hstatus => ?_, rfl⟩
      rw [hf] at hstatus
      contradiction
  | unwound hs hf ha =>
      refine .inl ⟨_, _, hs, fun a hstatus => ?_, rfl⟩
      rw [hf, Progress.executing.injEq] at hstatus
      rw [← hstatus, ha]
      rfl

/-- The innermost call takes a turn. -/
inductive Turned (wire : Wire) (s : Attempts V) (input : Input V) : Attempts V → Prop
  | intro {f : Frame V} {fs : List (Frame V)} {a : Activity V} {turn : Turn V}
      (hs : s.frames = f :: fs) (hf : f.status = .executing a)
      (ht : a.execute.resume f.runner a.phase input = some turn) :
      Turned wire s input (s.take wire f fs a input turn)

/-- The outcome of a step, by label. -/
inductive Moved (evictable : CachedLease → Int → Bool) (wire : Wire) (s : Attempts V) :
    AttemptLabel V → Attempts V → Prop
  | begun {start : StartCall} {steps : Steps} (hs : s.frames = []) (ho : s.opening = none) :
      Moved evictable wire s (.begin start steps) (s.begun wire start steps)
  | answered {n : Nat} {env : Env} {m : Message} (hf : env.fault = .none)
      (hn : s.sent[n]? = some m) (hr : m.reply = none) :
      Moved evictable wire s (.handle n env) (s.answer env n m)
  | entered {n : Nat} {start : StartCall} {steps : Steps} {fencingToken : Int}
      (ho : s.opening = some (n, start, steps)) :
      Moved evictable wire s .enter (s.entered start steps fencingToken)
  | called {f : Frame V} {fs : List (Frame V)} {execute : ExecuteCall} {task : Task}
      {rest : Steps} (hs : s.frames = f :: fs) (hf : f.status = .idle)
      (hr : f.steps = .step execute task rest) :
      Moved evictable wire s .execute (s.called wire f fs execute task rest)
  | opened {f : Frame V} {fs : List (Frame V)} {a : Activity V} {beforeExecution : Int}
      {start : StartCall} {steps : Steps} (hs : s.frames = f :: fs)
      (hf : f.status = .executing a) (hp : a.phase = .running beforeExecution)
      (ht : a.task = some (.workflow start steps)) :
      Moved evictable wire s .startInner (s.opened wire f fs a start steps)
  | turned {l : AttemptLabel V} {s' : Attempts V} {a : Activity V} {input : Input V}
      (hc : s.current = some a) (hi : Prompts s a l input) (ht : Turned wire s input s') :
      Moved evictable wire s l s'
  | completing {f : Frame V} {fs : List (Frame V)} (hs : s.frames = f :: fs)
      (hf : f.status = .idle) (hr : f.steps = .done) :
      Moved evictable wire s .complete (s.completing wire f fs)
  | ended {l : AttemptLabel V} {result : Except Thrown V} {s' : Attempts V}
      (hl : Left s result s') (hs : s'.frames = []) : Moved evictable wire s l s'
  | left {l : AttemptLabel V} {result : Except Thrown V} {s₁ s' : Attempts V}
      (hl : Left s result s₁)
      (ht : Turned wire s₁ (.taskSettled result) s') : Moved evictable wire s l s'
  | crashed : Moved evictable wire s .crash
      { s with frames := [], opening := none, log := s.cuts ++ s.log }
  | ticked {elapsed : Nat} :
      Moved evictable wire s (.tick elapsed) { s with world := s.world.tick elapsed }
  | evicted {key : String} : Moved evictable wire s (.evict key)
      { s with world := s.world.setCache key none }

theorem turned_of_goOn {wire : Wire} {input : Input V} {s s' : Attempts V}
    (h : s.goOn wire input = some s') : Turned wire s input s' := by
  unfold goOn at h
  split at h
  · next f fs hs =>
      split at h
      · next a hf =>
          rw [Option.map_eq_some_iff] at h
          obtain ⟨turn, ht, rfl⟩ := h
          exact .intro hs hf ht
      · contradiction
  · contradiction

/-- A body that settles ends the attempt, or its call goes on. -/
theorem settle_cases {wire : Wire} {result : Except Thrown V} {s s' : Attempts V}
    (h : s.settle wire result = some s') :
    (s.frames = [] ∧ s' = s) ∨ Turned wire s (.taskSettled result) s' := by
  unfold settle at h
  split at h
  · next hs => exact .inl ⟨hs, (Option.some.inj h).symm⟩
  · exact .inr (turned_of_goOn h)

theorem moved_of_settle {evictable : CachedLease → Int → Bool} {wire : Wire}
    {result : Except Thrown V} {s s₁ s' : Attempts V} {l : AttemptLabel V}
    (hl : Left s result s₁)
    (h : s₁.settle wire result = some s') : Moved evictable wire s l s' := by
  rcases settle_cases h with ⟨hs, rfl⟩ | ht
  · exact .ended hl hs
  · exact .left hl ht

/-- Every step does one of these. -/
theorem step_cases {evictable : CachedLease → Int → Bool} {wire : Wire} {s s' : Attempts V}
    {l : AttemptLabel V} (h : step evictable wire s l = some s') :
      Moved evictable wire s l s' := by
  cases l with
  | begin start steps =>
      simp only [step] at h
      split at h
      · next hs ho =>
          rw [← Option.some.inj h]
          exact .begun hs ho
      · contradiction
  | handle n env =>
      simp only [step] at h
      split at h
      · next m hn =>
          split at h
          · next hok =>
              rw [← Option.some.inj h]
              exact .answered hok.1 hn hok.2
          · contradiction
      · contradiction
  | enter =>
      simp only [step] at h
      split at h
      · next n start steps ho =>
          split at h
          · rw [← Option.some.inj h]
            exact .entered ho
          · contradiction
      · contradiction
  | execute =>
      simp only [step] at h
      split at h
      · next f fs hs =>
          split at h
          · next hf hr =>
              rw [← Option.some.inj h]
              exact .called hs hf hr
          · contradiction
      · contradiction
  | startInner =>
      simp only [step] at h
      split at h
      · next f fs hs =>
          split at h
          · next a hf =>
              split at h
              · next hp ht =>
                  rw [← Option.some.inj h]
                  exact .opened hs hf hp ht
              · contradiction
          · contradiction
      · contradiction
  | deliver now =>
      simp only [step] at h
      split at h
      · next a hc =>
          split at h
          · next result ho =>
              obtain ⟨n, ha, ho⟩ := Option.bind_eq_some_iff.mp ho
              exact .turned hc (.delivered ha ho) (turned_of_goOn h)
          · contradiction
      · contradiction
  | fail err now =>
      simp only [step] at h
      split at h
      · next a hc =>
          split at h
          · next ha => exact .turned hc (.failed ha) (turned_of_goOn h)
          · contradiction
      · contradiction
  | resume input =>
      simp only [step] at h
      split at h
      · next a hc =>
          split at h
          · next beforeExecution hp =>
              split at h
              · next hleaf =>
                  exact .turned hc (.resumed (.inl ⟨⟨beforeExecution, hp⟩, hleaf⟩))
                    (turned_of_goOn h)
              · contradiction
          · split at h
            · next ha =>
                exact .turned hc (.resumed (.inr (Option.isNone_iff_eq_none.mp ha)))
                  (turned_of_goOn h)
            · contradiction
      · contradiction
  | complete =>
      simp only [step] at h
      split at h
      · next f fs hs =>
          split at h
          · next hf hr =>
              rw [← Option.some.inj h]
              exact .completing hs hf hr
          · contradiction
      · contradiction
  | leave value =>
      simp only [step] at h
      split at h
      · next f fs hs =>
          split at h
          · next n hf =>
              split at h
              · exact moved_of_settle (.returned hs hf) h
              · contradiction
          · contradiction
      · contradiction
  | reject err =>
      simp only [step] at h
      split at h
      · next o ho => exact moved_of_settle (.unopened ho) h
      · split at h
        · next f fs hs =>
            split at h
            · next n hf => exact moved_of_settle (.uncompleted hs hf) h
            · contradiction
        · contradiction
  | unwind =>
      simp only [step] at h
      split at h
      · next f fs hs =>
          split at h
          · next a hf =>
              split at h
              · next err ha => exact moved_of_settle (.unwound hs hf ha) h
              · contradiction
          · contradiction
      · contradiction
  | crash =>
      simp only [step] at h
      rw [← Option.some.inj h]
      exact .crashed
  | tick elapsed =>
      simp only [step] at h
      rw [← Option.some.inj h]
      exact .ticked
  | evict key =>
      simp only [step, Option.map_eq_some_iff] at h
      obtain ⟨w, hw, rfl⟩ := h
      obtain ⟨entry, -, -, rfl⟩ := World.evict_eq_some hw
      exact .evicted

/-! ## Frames and log -/

/-- The call of a frame. -/
def Executing (s : Attempts V) (f : Frame V) (a : Activity V) : Prop :=
  f ∈ s.frames ∧ f.status = .executing a

/-- The log says that. -/
def Logged (s : Attempts V) (attempt : Nat) (workflowId : String) (position : Int)
    (fact : Fact V) : Prop :=
  { attempt := attempt, workflowId := workflowId, position := position, fact := fact } ∈ s.log

section Take

variable {wire : Wire} {s s' : Attempts V} {f : Frame V} {fs : List (Frame V)} {a : Activity V}
  {input : Input V} {turn : Turn V}

theorem mem_head (hs : s.frames = f :: fs) : f ∈ s.frames := by
  rw [hs]
  exact List.mem_cons_self

theorem mem_tail (hs : s.frames = f :: fs) {f' : Frame V} (hf' : f' ∈ fs) : f' ∈ s.frames := by
  rw [hs]
  exact List.mem_cons_of_mem _ hf'

theorem current_eq (hs : s.frames = f :: fs) (hf : f.status = .executing a) :
    s.current = some a := by
  simp only [current, hs, hf]

theorem not_executing (hs : s.frames = []) : ¬ s.Executing f a := by
  intro he
  have hmem := he.1
  rw [hs] at hmem
  contradiction

theorem mem_message {call? : Option AdapterCall} {m : Message}
    (h : m ∈ (call?.map (message wire)).toList) :
    ∃ call, call? = some call ∧ m = message wire call := by
  rw [Option.mem_toList, Option.map_eq_some_iff] at h
  obtain ⟨call, hcall, rfl⟩ := h
  exact ⟨call, hcall, rfl⟩

/-- A request is sent. -/
theorem mem_sent_concat {call : AdapterCall} {m : Message}
    (h : m ∈ s.sent ++ [message wire call]) : m ∈ s.sent ∨ m = message wire call := by
  rcases List.mem_append.mp h with hold | hnew
  · exact .inl hold
  · exact .inr (List.mem_singleton.mp hnew)

theorem statusAfter_executing {sent : Nat} {a' : Activity V}
    (h : statusAfter a turn sent = .executing a') :
    (∀ v, turn.phase ≠ .returned v) ∧
      a' = { a with phase := turn.phase, awaiting := turn.call.map fun _ => sent } := by
  unfold statusAfter at h
  split at h
  · contradiction
  · next phase hreturned =>
      cases h
      exact ⟨hreturned, rfl⟩

/-- The calls after a turn: the one that took it, unless it returned, and the
others. -/
theorem executing_take (hs : s.frames = f :: fs)
    (ha : ExecuteCall.Advances a.execute f.runner a.phase input turn) {f' : Frame V}
    {a' : Activity V} (he : (s.take wire f fs a input turn).Executing f' a') :
    (f'.runner = f.runner ∧ (∀ v, turn.phase ≠ .returned v) ∧
      a' = { a with phase := turn.phase, awaiting := turn.call.map fun _ => s.sent.length }) ∨
      s.Executing f' a' := by
  obtain ⟨hmem, hstatus⟩ := he
  rcases List.mem_cons.mp hmem with rfl | hmem
  · obtain ⟨hreturned, rfl⟩ := statusAfter_executing hstatus
    rcases ha.runner_eq with hrunner | ⟨-, v, hv⟩
    · exact .inl ⟨hrunner, hreturned, rfl⟩
    · exact absurd hv (hreturned v)
  · refine .inr ⟨?_, hstatus⟩
    rw [hs]
    exact List.mem_cons_of_mem _ hmem

/-- What a turn writes to the log. -/
theorem facts_cases {fact : Fact V} (h : fact ∈ facts a input turn) :
    (∃ v, turn.phase = .returned v ∧ fact = .returned v) ∨
      (∃ beforeExecution, turn.phase = .running beforeExecution ∧ a.isLeaf = true ∧
        fact = .ran) ∨
      ∃ beforeExecution v, a.phase = .running beforeExecution ∧ input = .taskSettled (.ok v) ∧
        fact = .completed a.isLeaf v := by
  rcases List.mem_append.mp h with h | h
  · split at h
    · next v hv => exact .inl ⟨v, hv, List.mem_singleton.mp h⟩
    · next beforeExecution hp =>
        split at h
        · next hleaf => exact .inr (.inl ⟨beforeExecution, hp, hleaf, List.mem_singleton.mp h⟩)
        · contradiction
    · contradiction
  · split at h
    · next beforeExecution v hp hi =>
        exact .inr (.inr ⟨beforeExecution, v, hp, rfl, List.mem_singleton.mp h⟩)
    · contradiction

theorem logged_take {k : Nat} {workflowId : String} {position : Int} {fact : Fact V} :
    (s.take wire f fs a input turn).Logged k workflowId position fact ↔
      (k = s.attempt ∧ workflowId = f.runner.workflowId ∧ position = f.runner.position ∧
        fact ∈ facts a input turn) ∨ s.Logged k workflowId position fact := by
  unfold Logged take
  simp only [List.mem_append, List.mem_map, Entry.mk.injEq]
  constructor
  · intro h
    rcases h with ⟨fact', hfact, rfl, rfl, rfl, rfl⟩ | hold
    · exact .inl ⟨rfl, rfl, rfl, hfact⟩
    · exact .inr hold
  · intro h
    rcases h with ⟨rfl, rfl, rfl, hfact⟩ | hold
    · exact .inl ⟨fact, hfact, rfl, rfl, rfl, rfl⟩
    · exact .inr hold

/-- A turn stores nothing. -/
theorem stored_take {k : Nat} {workflowId : String} {position : Int} {value : Bytes} :
    (s.take wire f fs a input turn).Logged k workflowId position (.stored value) ↔
      s.Logged k workflowId position (.stored value) := by
  constructor
  · intro h
    rcases logged_take.mp h with ⟨-, -, -, hfact⟩ | hold
    · rcases facts_cases hfact with ⟨v, -, heq⟩ | ⟨b, -, -, heq⟩ | ⟨b, v, -, -, heq⟩ <;>
        contradiction
    · exact hold
  · exact fun hold => logged_take.mpr (.inr hold)

/-- A value is stored where there was no row. -/
theorem mem_storedFact {before after : World} {request : Request} {workflowId : String}
    {position : Int} {value : Bytes} :
    (workflowId, position, value) ∈ storedFact before after request ↔
      ∃ data, request = .checkpoint data ∧ data.workflowId = workflowId ∧
        data.position = position ∧ before.checkpoints workflowId position = none ∧
        ∃ row, after.checkpoints workflowId position = some row ∧ row.value = some value := by
  constructor
  · intro h
    unfold storedFact at h
    split at h
    · next data =>
        split at h
        · next found hnone hvalue =>
            obtain ⟨row, hrow, hrowValue⟩ := Option.bind_eq_some_iff.mp hvalue
            cases List.mem_singleton.mp h
            exact ⟨data, rfl, rfl, rfl, hnone, row, hrow, hrowValue⟩
        · contradiction
    · contradiction
  · intro h
    obtain ⟨data, rfl, rfl, rfl, hnone, row, hrow, hvalue⟩ := h
    simp only [storedFact, hnone, hrow, Option.bind_some, hvalue, List.mem_singleton]

theorem logged_answer {env : Env} {n : Nat} {m : Message} {k : Nat} {workflowId : String}
    {position : Int} {fact : Fact V} :
    (s.answer env n m).Logged k workflowId position fact ↔
      (k = s.attempt ∧ ∃ value, fact = .stored value ∧
        (workflowId, position, value) ∈
          storedFact s.world (m.request.handle env s.world).2 m.request) ∨
        s.Logged k workflowId position fact := by
  unfold Logged answer
  simp only [List.mem_append, List.mem_map, Entry.mk.injEq, Prod.exists]
  constructor
  · intro h
    rcases h with ⟨w, p, value, hmem, rfl, rfl, rfl, rfl⟩ | hold
    · exact .inl ⟨rfl, value, rfl, hmem⟩
    · exact .inr hold
  · intro h
    rcases h with ⟨rfl, value, rfl, hmem⟩ | hold
    · exact .inl ⟨workflowId, position, value, hmem, rfl, rfl, rfl, rfl⟩
    · exact .inr hold

/-- What a cut writes to the log. -/
theorem mem_cuts {e : Entry V} :
    e ∈ s.cuts ↔ ∃ f a v, s.Executing f a ∧ a.phase.taskResult? = some (.ok v) ∧
      e = { attempt := s.attempt, workflowId := f.runner.workflowId
            position := f.runner.position, fact := .cut } := by
  unfold cuts
  rw [List.mem_filterMap]
  constructor
  · intro h
    obtain ⟨f, hmem, he⟩ := h
    split at he
    · next a hstatus =>
        split at he
        · next v hresult =>
            cases he
            exact ⟨f, a, v, ⟨hmem, hstatus⟩, hresult, rfl⟩
        · contradiction
    · contradiction
  · intro h
    obtain ⟨f, a, v, ⟨hmem, hstatus⟩, hresult, rfl⟩ := h
    refine ⟨f, hmem, ?_⟩
    simp only [hstatus, hresult]

/-- A crash adds nothing else to the log. -/
theorem logged_crash {k : Nat} {workflowId : String} {position : Int} {fact : Fact V} :
    ({ s with frames := [], opening := none, log := s.cuts ++ s.log } : Attempts V).Logged
        k workflowId position fact ↔
      (fact = .cut ∧ k = s.attempt ∧ ∃ f a v, s.Executing f a ∧
        a.phase.taskResult? = some (.ok v) ∧ f.runner.workflowId = workflowId ∧
        f.runner.position = position) ∨ s.Logged k workflowId position fact := by
  unfold Logged
  rw [List.mem_append, mem_cuts]
  constructor
  · intro h
    rcases h with ⟨f, a, v, he, hresult, heq⟩ | hold
    · cases heq
      exact .inl ⟨rfl, rfl, f, a, v, he, hresult, rfl, rfl⟩
    · exact .inr hold
  · intro h
    rcases h with ⟨rfl, rfl, f, a, v, he, hresult, rfl, rfl⟩ | hold
    · exact .inl ⟨f, a, v, he, hresult, rfl⟩
    · exact .inr hold

end Take

end Attempts

end IdempotentTransformer
