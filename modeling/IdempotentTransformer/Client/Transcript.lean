import IdempotentTransformer.Client.Execution

/-!
# IdempotentTransformer.Client.Transcript

One `execute` call with everything that can be seen of it: the turns it took,
the calls it sent and the runner it left.

A label is the position other calls of the runner left it at, and what the
`await` comes back with; a runner used one `execute` at a time is left as it
was (`Alone`).  What was sent follows from two lists read off the turns: those
the task ended on (`ended`) and how serialization ended (`serializations`).
-/

namespace IdempotentTransformer

open Library

/-- The runner, at the position other calls left it at. -/
def Runner.moved (r : Runner) (position : Int) : Runner := { r with position := position }

namespace Runner

@[simp] theorem moved_workflowId (r : Runner) (position : Int) :
    (r.moved position).workflowId = r.workflowId := rfl

@[simp] theorem moved_fencingToken (r : Runner) (position : Int) :
    (r.moved position).fencingToken = r.fencingToken := rfl

@[simp] theorem moved_position (r : Runner) (position : Int) :
    (r.moved position).position = position := rfl

@[simp] theorem moved_self (r : Runner) : r.moved r.position = r := rfl

@[simp] theorem moved_moved (r : Runner) (position position' : Int) :
    (r.moved position).moved position' = r.moved position' := rfl

end Runner

/-- The task's own turn. -/
def Phase.working {V : Type} : Phase V → Bool
  | .running _ => true
  | _ => false

/-- The lease is being given back. -/
def Phase.giving {V : Type} : Phase V → Bool
  | .releasing _ => true
  | _ => false

/-- The result is being saved. -/
def Phase.saving {V : Type} : Phase V → Bool
  | .checkpointing .. => true
  | _ => false

/-- The task rejected. -/
def Input.rejected {V : Type} : Input V → Bool
  | .taskSettled (.error _) => true
  | _ => false

def AdapterCall.isCheckpoint : AdapterCall → Bool
  | .checkpoint .. => true
  | _ => false

def AdapterCall.isRelease : AdapterCall → Bool
  | .releaseLeaseCheckpoint .. => true
  | _ => false

/-- The position a call is about. -/
def AdapterCall.position? : AdapterCall → Option Int
  | .checkpoint _ _ _ position _ => some position
  | .leaseCheckpoint _ _ _ position _ => some position
  | .releaseLeaseCheckpoint _ position => some position
  | .generateIdempotencyKey _ _ position => some position
  | _ => none

/-- The position a call asks the lease of. -/
def AdapterCall.asked? : AdapterCall → Option Int
  | .leaseCheckpoint _ _ _ position _ => some position
  | _ => none

theorem Phase.early_of_working {V : Type} {phase : Phase V} (h : phase.working = true) :
    phase.early = true := by
  cases phase with
  | running beforeExecution => rfl
  | _ => contradiction

theorem Phase.taskResult?_of_early {V : Type} {phase : Phase V} (h : phase.early = true) :
    phase.taskResult? = none := by
  cases phase <;> first | rfl | contradiction

/-- The task starts in no turn that ends it. -/
theorem ExecuteCall.Advances.not_working_of_early {V : Type} {c : ExecuteCall} {r : Runner}
    {phase : Phase V} {input : Input V} {turn : Turn V} (h : Advances c r phase input turn)
    (he : turn.phase.early = true) : phase.working = false := by
  cases h with
  | retries hp => rcases hp with rfl | ⟨value, rfl⟩ <;> rfl
  | asks => rfl
  | polls hv hr => rfl
  | finds hv => rfl
  | granted hv hr => rfl
  | compensates hp hp' =>
      rcases hp' with ⟨i, rfl⟩ | ⟨_, i, rfl⟩ <;> contradiction
  | _ => contradiction

/-- A release is sent in the turn the task rejects in, and in no other. -/
theorem ExecuteCall.Advances.release_eq {V : Type} {c : ExecuteCall} {r : Runner}
    {phase : Phase V} {input : Input V} {turn : Turn V} (h : Advances c r phase input turn) :
    turn.call.toList.filter AdapterCall.isRelease =
      if phase.working = true ∧ input.rejected = true then
        [.releaseLeaseCheckpoint r.workflowId r.position] else [] := by
  cases h with
  | retries hp => rcases hp with rfl | ⟨value, rfl⟩ <;> rfl
  | checkpoints hp => rcases hp with ⟨_, _, rfl, -⟩ | rfl <;> rfl
  | returnsResult hp =>
      have hworking : phase.working = false := by
        cases phase <;> first | rfl | contradiction
      simp [hworking]
  | compensates hp hp' =>
      have hworking : phase.working = false := by
        cases phase <;> first | rfl | contradiction
      simp [hworking]
  | throws hp hi =>
      rw [if_neg]
      · rfl
      · rintro ⟨hworking, hrejected⟩
        cases phase with
        | running beforeExecution =>
            cases input with
            | taskSettled result => exact hi beforeExecution result rfl rfl
            | _ => contradiction
        | _ => contradiction
  | _ => rfl

/-- Nothing has been serialized yet. -/
def Phase.unsaved {V : Type} : Phase V → Bool
  | .serializing _ _ => true
  | phase => phase.early

/-- A call that has serialized nothing had not before this turn, and did not in
it. -/
theorem ExecuteCall.Advances.unsaved_of_unsaved {V : Type} {c : ExecuteCall} {r : Runner}
    {phase : Phase V} {input : Input V} {turn : Turn V} (h : Advances c r phase input turn)
    (hu : turn.phase.unsaved = true) : phase.early = true := by
  cases h with
  | retries hp => rcases hp with rfl | ⟨value, rfl⟩ <;> rfl
  | asks => rfl
  | polls hv hr => rfl
  | finds hv => rfl
  | granted hv hr => rfl
  | completes => rfl
  | compensates hp hp' =>
      rcases hp' with ⟨i, rfl⟩ | ⟨_, i, rfl⟩ <;> contradiction
  | _ => contradiction

/-- `errorCount`, while the lease is asked for. -/
def Phase.errorCount? {V : Type} : Phase V → Option Nat
  | .leasing errorCount | .waiting _ errorCount | .deserializing _ errorCount => some errorCount
  | _ => none

/-- A turn that was taken: the runner it found, where it stood, what came back
and the runner it left. -/
structure Taken (V : Type) where
  runner : Runner
  phase : Phase V
  input : Input V
  left : Runner

namespace Taken

variable {V : Type}

/-- The call that gives the lease back in a turn. -/
def release (turn : Taken V) : AdapterCall :=
  .releaseLeaseCheckpoint turn.runner.workflowId turn.runner.position

/-- How serialization ended. -/
def serialized? (turn : Taken V) : Option (Except Thrown TSerialized) :=
  match turn.phase, turn.input with
  | .serializing _ _, .serialized result _ => some result
  | _, _ => none

/-- An error caught in the lease loop. -/
def leaseError? (turn : Taken V) : Option Thrown :=
  match turn.phase, turn.input with
  | .leasing _, .reply (.error err) _ => some err
  | .deserializing _ _, .deserialized (.error err) => some err
  | _, _ => none

/-- The error count changes only where an error is caught. -/
theorem leaseError?_cases {c : ExecuteCall} {r : Runner} (left : Runner) {phase : Phase V}
    {input : Input V} {turn : Turn V} (h : c.resume r phase input = some turn) :
    (∃ err k, leaseError? ⟨r, phase, input, left⟩ = some err ∧ phase.errorCount? = some k ∧
        turn = ExecuteCall.leaseFailed r k err) ∨
      leaseError? ⟨r, phase, input, left⟩ = none ∧
        ∀ k, turn.phase.errorCount? = some k → phase.errorCount? = some k := by
  have hadvances := ExecuteCall.resume_cases h
  unfold ExecuteCall.resume at h
  split at h
  case h_1 k value remaining now =>
    cases h
    refine .inr ⟨rfl, fun k' hk' => ?_⟩
    unfold ExecuteCall.leaseReplied at hk'
    split at hk'
    · exact hk'
    · split at hk'
      · exact hk'
      · contradiction
  case h_2 k err now =>
    cases h
    exact .inl ⟨err, k, rfl, rfl, rfl⟩
  case h_3 =>
    cases h
    exact .inr ⟨rfl, fun _ hk => hk⟩
  case h_4 =>
    cases h
    exact .inr ⟨rfl, fun _ hk => nomatch hk⟩
  case h_5 value k err =>
    cases h
    exact .inl ⟨err, k, rfl, rfl, rfl⟩
  case h_18 => contradiction
  -- Past the lease loop no turn goes back to it.
  all_goals
    refine .inr ⟨rfl, fun k hk => ?_⟩
    cases hadvances with
    | compensates hp hp' => rcases hp' with ⟨i, rfl⟩ | ⟨_, i, rfl⟩ <;> contradiction
    | retries hp => rcases hp with hp | ⟨value, hp⟩ <;> contradiction
    | _ => contradiction

/-- A checkpoint call is answered. -/
def answered (turn : Taken V) : Bool :=
  match turn.phase, turn.input with
  | .checkpointing .., .reply (.ok (.checkpoint _)) _ => true
  | _, _ => false

/-- A lease reply with neither a value nor a remaining timeout. -/
def Grants (turn : Taken V) (now : Int) : Prop :=
  ∃ k value remaining, turn.phase = .leasing k ∧
    turn.input = .reply (.ok (.leaseCheckpoint value remaining)) now ∧
    value.filter TSerialized.truthy = none ∧ remaining.filter (· ≠ 0) = none

end Taken

/-- An `execute` call with the turns it took and the calls it sent, latest
first, and the runner as it left it. -/
structure Transcript (V : Type) where
  runner : Runner
  phase : Phase V
  turns : List (Taken V)
  sent : List AdapterCall

namespace Transcript

variable {V : Type}

/-- Where the call stood after each turn, latest first. -/
def visited (s : Transcript V) : List (Phase V) := s.phase :: s.turns.map Taken.phase

/-- The turns the task ended on. -/
def ended (s : Transcript V) : List (Taken V) := s.turns.filter fun turn => turn.phase.working

/-- How serialization ended. -/
def serializations (s : Transcript V) : List (Except Thrown TSerialized) :=
  s.turns.filterMap Taken.serialized?

/-- The errors caught in the lease loop. -/
def leaseErrors (s : Transcript V) : List Thrown := s.turns.filterMap Taken.leaseError?

/-- How often the task was started. -/
def starts (s : Transcript V) : Nat := s.visited.countP Phase.working

/-- The position last asked the lease of. -/
def asked? (s : Transcript V) : Option Int := s.sent.findSome? AdapterCall.asked?

/-- The call as one that keeps its turns only. -/
def execution (s : Transcript V) : Execution V :=
  { phase := s.phase, turns := s.turns.map fun turn => (turn.phase, turn.input) }

/-- One turn.  The label is the position the runner stands at then, and what
the `await` comes back with. -/
def step (c : ExecuteCall) : Step (Transcript V) (Int × Input V)
  | s, (position, input) =>
      let r := s.runner.moved position
      (c.resume r s.phase input).map fun turn =>
        { runner := turn.runner
          phase := turn.phase
          turns :=
            { runner := r, phase := s.phase, input := input, left := turn.runner } :: s.turns
          sent := turn.call.toList ++ s.sent }

/-- A call at its first `await`. -/
def start (c : ExecuteCall) (r : Runner) : Transcript V :=
  let turn : Turn V := c.begin r
  { runner := turn.runner, phase := turn.phase, turns := [], sent := turn.call.toList }

def Begun (c : ExecuteCall) (r : Runner) (s : Transcript V) : Prop := s = start c r

/-- The runs of a call on a runner that other calls may use. -/
def Reached (c : ExecuteCall) (r : Runner) (s : Transcript V) : Prop :=
  Reachable (step c) anyStep (Begun c r) s

/-- The runs of a call on a runner that no other call uses meanwhile. -/
def Alone (c : ExecuteCall) (r : Runner) (s : Transcript V) : Prop :=
  Reachable (step c) (fun s l => l.1 = s.runner.position) (Begun c r) s

variable {c : ExecuteCall} {r : Runner} {s s' : Transcript V}

theorem Alone.reached (hr : s.Alone c r) : s.Reached c r :=
  hr.mono fun _ _ _ => trivial

/-- A step is a turn of the call. -/
theorem step_cases {l : Int × Input V} (hs : step c s l = some s') :
    ∃ turn, c.resume (s.runner.moved l.1) s.phase l.2 = some turn ∧
      s' =
        { runner := turn.runner
          phase := turn.phase
          turns := { runner := s.runner.moved l.1, phase := s.phase, input := l.2,
                     left := turn.runner } :: s.turns
          sent := turn.call.toList ++ s.sent } := by
  obtain ⟨position, input⟩ := l
  simp only [step, Option.map_eq_some_iff] at hs
  obtain ⟨turn, hturn, rfl⟩ := hs
  exact ⟨turn, hturn, rfl⟩

/-- A transcript, less what was sent, is a run of the call. -/
theorem Reached.execution (hr : s.Reached c r) : s.execution.Reached c := by
  refine Reachable.map Transcript.execution hr ?_ ?_
  · intro s h
    rw [h]
    exact ⟨r, rfl⟩
  · intro s l s' _ _ hs
    obtain ⟨turn, hturn, rfl⟩ := step_cases hs
    refine .step (.start rfl) (l := (s.runner.moved l.1, l.2)) trivial ?_
    simp only [Execution.step, Transcript.execution, hturn, Option.map_some, List.map_cons]

/-- A settled call takes no turn. -/
theorem step_of_settled (h : s.phase.settled = true)
    (l : Int × Input V) : step c s l = none := by
  cases hs : step c s l with
  | none => rfl
  | some s' =>
      obtain ⟨turn, hturn, -⟩ := step_cases hs
      rw [(ExecuteCall.resume_cases hturn).not_settled] at h
      contradiction

/-- The turn that answers a checkpoint call is the last. -/
theorem Reached.settled_of_answered (hr : s.Reached c r) {turn : Taken V} (ht : turn ∈ s.turns)
    (ha : turn.answered = true) : s.phase.settled = true := by
  by_contra hsettled
  rw [Bool.not_eq_true] at hsettled
  refine hr.execution.traced.unsettled hsettled (turn.phase, turn.input)
    (List.mem_map_of_mem ht) ?_
  unfold Taken.answered at ha
  split at ha
  · next leaseExpiry v value abort now hphase hinput =>
      right
      left
      exact ⟨leaseExpiry, v, value, abort, now, by rw [hphase, hinput]⟩
  · contradiction

/-! ## The end of the task -/

theorem visited_step {l : Int × Input V} (hs : step c s l = some s') :
    s'.visited = s'.phase :: s.visited := by
  obtain ⟨turn, -, rfl⟩ := step_cases hs
  rfl

/-- What the turns say about the task: it ends once, and a call goes on from the
result it ended with. -/
structure Told (s : Transcript V) : Prop where
  early : s.phase.early = true → s.ended = []
  result : ∀ result, s.phase.taskResult? = some result →
    ∃ turn, s.ended = [turn] ∧ turn.input = .taskSettled result
  once : s.ended.length ≤ 1

private theorem ended_step {l : Int × Input V} (hs : step c s l = some s') :
    (s.phase.working = true ∧ ∃ turn : Taken V, s'.ended = turn :: s.ended ∧
        turn.phase = s.phase ∧ turn.input = l.2) ∨
      s.phase.working = false ∧ s'.ended = s.ended := by
  obtain ⟨turn, -, rfl⟩ := step_cases hs
  cases hworking : s.phase.working with
  | true =>
      refine .inl ⟨rfl,
        { runner := s.runner.moved l.1, phase := s.phase, input := l.2, left := turn.runner },
        ?_, rfl, rfl⟩
      simp only [ended, List.filter_cons, hworking, if_true]
  | false =>
      refine .inr ⟨rfl, ?_⟩
      simp only [ended, List.filter_cons, hworking, Bool.false_eq_true, if_false]

private theorem told_step {l : Int × Input V} (h : s.Told) (hs : step c s l = some s') :
    s'.Told := by
  obtain ⟨turn, hturn, hs'⟩ := step_cases hs
  have hadvances := ExecuteCall.resume_cases hturn
  have hphase : s'.phase = turn.phase := by rw [hs']
  rcases ended_step hs with ⟨hworking, ending, hended, -, hinput⟩ | ⟨hworking, hended⟩
  · have hearly := Phase.early_of_working hworking
    rw [h.early hearly] at hended
    constructor
    case early =>
      intro hearly
      rw [hphase] at hearly
      rw [hadvances.not_working_of_early hearly] at hworking
      contradiction
    case result =>
      intro result hresult
      rw [hphase] at hresult
      rcases hadvances.taskResult_cases hresult with hold | ⟨t, -, hsettled⟩
      · rw [Phase.taskResult?_of_early hearly] at hold
        contradiction
      · exact ⟨ending, hended, hinput.trans hsettled⟩
    case once => simp [hended]
  · constructor
    case early =>
      intro hearly
      rw [hphase] at hearly
      rw [hended]
      exact h.early (hadvances.early_of_early hearly).1
    case result =>
      intro result hresult
      rw [hphase] at hresult
      rcases hadvances.taskResult_cases hresult with hold | ⟨t, hrunning, -⟩
      · rw [hended]
        exact h.result result hold
      · rw [hrunning] at hworking
        contradiction
    case once =>
      rw [hended]
      exact h.once

theorem Reached.told (hr : s.Reached c r) : s.Told := by
  refine hr.invariant Told ?_ fun _ _ _ h _ hs => told_step h hs
  intro s h
  rw [h]
  exact ⟨fun _ => rfl, nofun, Nat.zero_le 1⟩

/-- Each start of the task ends once, or the task still runs. -/
theorem Reached.starts_eq (hr : s.Reached c r) :
    s.starts = s.ended.length + if s.phase.working then 1 else 0 := by
  refine hr.invariant
    (fun s => s.starts = s.ended.length + if s.phase.working then 1 else 0) ?_ ?_
  · intro s h
    rw [h]
    rfl
  · intro s l s' ih _ hs
    rw [starts, visited_step hs, List.countP_cons, ← starts, ih]
    rcases ended_step hs with ⟨hworking, ending, hended, -⟩ | ⟨hworking, hended⟩
    · simp [hworking, hended]
    · simp [hworking, hended]

theorem Reached.starts_le_one (hr : s.Reached c r) : s.starts ≤ 1 := by
  rw [hr.starts_eq]
  split
  · next hworking =>
      rw [hr.told.early (Phase.early_of_working hworking)]
      exact Nat.le_refl 1
  · exact hr.told.once

/-- A call that ever went on from a result goes on from the one its task ended
with. -/
theorem Reached.ended_of_visited (hr : s.Reached c r) {phase : Phase V} (hp : phase ∈ s.visited)
    {result : Except Thrown V} (hresult : phase.taskResult? = some result) :
    ∃ turn, s.ended = [turn] ∧ turn.input = .taskSettled result := by
  refine hr.invariant_of_reachable (fun s => ∀ phase ∈ s.visited, ∀ result,
    phase.taskResult? = some result →
      ∃ turn, s.ended = [turn] ∧ turn.input = .taskSettled result) ?_ ?_ phase hp result hresult
  · intro s h phase hp result hresult
    rw [h] at hp
    rw [List.mem_singleton.mp hp] at hresult
    contradiction
  · intro s l s' (hr : s.Reached c r) ih _ hs phase hp result hresult
    rw [visited_step hs, List.mem_cons] at hp
    rcases hp with rfl | hp
    · exact (told_step hr.told hs).result result hresult
    · obtain ⟨ending, hended, hinput⟩ := ih phase hp result hresult
      rcases ended_step hs with ⟨hworking, -⟩ | ⟨-, hsame⟩
      · rw [hr.told.early (Phase.early_of_working hworking)] at hended
        contradiction
      · exact ⟨ending, hsame.trans hended, hinput⟩

/-! ## What was sent -/

private theorem ended_rejected_step {l : Int × Input V} (hs : step c s l = some s') :
    (s'.ended.filter fun turn => turn.input.rejected).map Taken.release =
      (if s.phase.working = true ∧ l.2.rejected = true then
          [AdapterCall.releaseLeaseCheckpoint s.runner.workflowId l.1] else []) ++
        (s.ended.filter fun turn => turn.input.rejected).map Taken.release := by
  obtain ⟨turn, -, rfl⟩ := step_cases hs
  simp only [ended, List.filter_cons]
  cases hworking : s.phase.working with
  | false => simp only [Bool.false_eq_true, if_false, false_and, List.nil_append]
  | true =>
      cases hrejected : l.2.rejected with
      | false =>
          simp only [if_true, List.filter_cons, hrejected, Bool.false_eq_true,
            if_false, and_false, List.nil_append]
      | true =>
          simp only [if_true, List.filter_cons, hrejected, and_self, List.map_cons,
            List.singleton_append, Taken.release, Runner.moved_workflowId,
            Runner.moved_position]

/-- **The lease is given back where the task rejects**, and nowhere else. -/
theorem Reached.releases_eq (hr : s.Reached c r) :
    s.sent.filter AdapterCall.isRelease =
      (s.ended.filter fun turn => turn.input.rejected).map Taken.release := by
  refine hr.invariant (fun s => s.sent.filter AdapterCall.isRelease =
    (s.ended.filter fun turn => turn.input.rejected).map Taken.release) ?_ ?_
  · intro s h
    rw [h]
    rfl
  · intro s l s' ih _ hs
    rw [ended_rejected_step hs, ← ih]
    obtain ⟨turn, hturn, rfl⟩ := step_cases hs
    rw [List.filter_append, (ExecuteCall.resume_cases hturn).release_eq]
    rfl

/-- What the turns say about serialization: it ends once, and the bytes of a
checkpoint are what it ended with. -/
structure Saved (s : Transcript V) : Prop where
  unsaved : s.phase.unsaved = true → s.serializations = []
  saving : ∀ leaseExpiry v value, Phase.checkpointing leaseExpiry v value ∈ s.visited →
    s.serializations = [.ok value]

private theorem serializations_step {l : Int × Input V} (hs : step c s l = some s') :
    (∃ beforeExecution v result now, s.phase = .serializing beforeExecution v ∧
        l.2 = .serialized result now ∧ s'.serializations = result :: s.serializations) ∨
      s'.serializations = s.serializations ∧
        ∀ beforeExecution v result now, s.phase = .serializing beforeExecution v →
          l.2 ≠ .serialized result now := by
  obtain ⟨turn, -, rfl⟩ := step_cases hs
  cases hserialized : Taken.serialized? ⟨s.runner.moved l.1, s.phase, l.2, turn.runner⟩ with
  | none =>
      refine .inr ⟨List.filterMap_cons_none hserialized, ?_⟩
      intro beforeExecution v result now hphase hinput
      simp only [Taken.serialized?, hphase, hinput] at hserialized
      contradiction
  | some result =>
      left
      simp only [Taken.serialized?] at hserialized
      split at hserialized
      · next beforeExecution v result' now hphase hinput =>
          cases hserialized
          refine ⟨beforeExecution, v, result, now, hphase, hinput, ?_⟩
          simp only [serializations, List.filterMap_cons, Taken.serialized?, hphase, hinput]
      · contradiction

private theorem saved_step {l : Int × Input V} (h : s.Saved) (hs : step c s l = some s') :
    s'.Saved := by
  obtain ⟨turn, hturn, hs'⟩ := step_cases hs
  have hadvances := ExecuteCall.resume_cases hturn
  have hphase : s'.phase = turn.phase := by rw [hs']
  rcases serializations_step hs with
    ⟨beforeExecution, v, result, now, hserializing, hinput, hnew⟩ |
    ⟨hsame, hnone⟩
  · have hempty : s.serializations = [] := h.unsaved (by rw [hserializing]; rfl)
    rw [hempty] at hnew
    constructor
    case unsaved =>
      intro hunsaved
      rw [hphase] at hunsaved
      have hearly := hadvances.unsaved_of_unsaved hunsaved
      rw [hserializing] at hearly
      contradiction
    case saving =>
      intro leaseExpiry w value hvisited
      rw [visited_step hs, List.mem_cons] at hvisited
      rcases hvisited with hnow | hbefore
      · rcases hadvances.checkpointing_cases (hphase.symm.trans hnow.symm) with
          ⟨_, _, -, hserialized⟩ | hold
        · rw [hinput] at hserialized
          cases hserialized
          exact hnew
        · rw [hserializing] at hold
          contradiction
      · rw [h.saving _ _ _ hbefore] at hempty
        contradiction
  · constructor
    case unsaved =>
      intro hunsaved
      rw [hphase] at hunsaved
      have hearly := hadvances.unsaved_of_unsaved hunsaved
      rw [hsame]
      refine h.unsaved ?_
      cases hp : s.phase <;> rw [hp] at hearly <;> first | rfl | contradiction
    case saving =>
      intro leaseExpiry w value hvisited
      rw [hsame]
      rw [visited_step hs, List.mem_cons] at hvisited
      rcases hvisited with hnow | hbefore
      · rcases hadvances.checkpointing_cases (hphase.symm.trans hnow.symm) with
          ⟨_, _, hserializing, hserialized⟩ | hold
        · exact absurd hserialized (hnone _ _ _ _ hserializing)
        · refine h.saving leaseExpiry w value ?_
          rw [← hold]
          exact List.mem_cons_self
      · exact h.saving _ _ _ hbefore

theorem Reached.saved (hr : s.Reached c r) : s.Saved := by
  refine hr.invariant Saved ?_ fun _ _ _ h _ hs => saved_step h hs
  intro s h
  rw [h]
  constructor
  · exact fun _ => rfl
  · intro leaseExpiry v value hvisited
    cases List.mem_singleton.mp hvisited

/-- Only its position moves. -/
theorem Reached.runner_eq (hr : s.Reached c r) : s.runner = r.moved s.runner.position := by
  refine hr.invariant (fun s => s.runner = r.moved s.runner.position) ?_ ?_
  · intro s h
    rw [h]
    rfl
  · intro s l s' ih _ hs
    obtain ⟨turn, hturn, rfl⟩ := step_cases hs
    rcases (ExecuteCall.resume_cases hturn).runner_eq with hsame | ⟨hnext, -⟩
    · simp only [hsame]
      rw [ih]
      rfl
    · simp only [hnext]
      rw [ih]
      rfl

theorem Reached.turn_runner (hr : s.Reached c r) {turn : Taken V} (ht : turn ∈ s.turns) :
    turn.runner = r.moved turn.runner.position := by
  refine hr.invariant_of_reachable
    (fun s => ∀ turn ∈ s.turns, turn.runner = r.moved turn.runner.position) ?_ ?_ turn ht
  · intro s h turn hturn
    rw [h] at hturn
    contradiction
  · intro s l s' (hr : s.Reached c r) ih _ hs t ht
    obtain ⟨turn, -, rfl⟩ := step_cases hs
    rcases List.mem_cons.mp ht with rfl | ht
    · simp only
      rw [hr.runner_eq]
      rfl
    · exact ih t ht

/-- What a call sent, and where it then stood. -/
theorem Reached.sent_cases (hr : s.Reached c r) {call : AdapterCall} (hc : call ∈ s.sent) :
    ∃ position,
      call = .leaseCheckpoint r.workflowId r.fencingToken c.options.leaseMilliseconds position
          c.idempotencyKey ∨
        (∃ leaseExpiry v value, Phase.checkpointing leaseExpiry v value ∈ s.visited ∧
          call = .checkpoint r.workflowId value r.fencingToken position c.idempotencyKey) ∨
        call = .releaseLeaseCheckpoint r.workflowId position := by
  refine hr.invariant_of_reachable (fun s => ∀ call ∈ s.sent, ∃ position,
    call = .leaseCheckpoint r.workflowId r.fencingToken c.options.leaseMilliseconds position
        c.idempotencyKey ∨
      (∃ leaseExpiry v value, Phase.checkpointing leaseExpiry v value ∈ s.visited ∧
        call = .checkpoint r.workflowId value r.fencingToken position c.idempotencyKey) ∨
      call = .releaseLeaseCheckpoint r.workflowId position) ?_ ?_ call hc
  · intro s h call hcall
    rw [h] at hcall
    exact ⟨r.position, .inl (List.mem_singleton.mp hcall)⟩
  · intro s l s' (hr : s.Reached c r) ih _ hs call hcall
    have hvisited := visited_step hs
    obtain ⟨turn, hturn, rfl⟩ := step_cases hs
    rw [List.mem_append, Option.mem_toList] at hcall
    rcases hcall with hnow | hbefore
    · have hrunner := hr.runner_eq
      refine ⟨l.1, ?_⟩
      rcases (ExecuteCall.resume_cases hturn).call_cases hnow with ⟨k, -, -, hcall⟩ |
        ⟨leaseExpiry, v, value, hphase, -, hcall⟩ | ⟨_, err, -, -, -, hcall⟩
      · left
        rw [hcall, hrunner]
        rfl
      · right
        left
        refine ⟨leaseExpiry, v, value, ?_, ?_⟩
        · rw [hvisited, ← hphase]
          exact List.mem_cons_self
        · rw [hcall, hrunner]
          rfl
      · right
        right
        rw [hcall, hrunner]
        rfl
    · obtain ⟨position, hlease | ⟨leaseExpiry, v, value, hphase, hcall⟩ | hrelease⟩ :=
        ih call hbefore
      · exact ⟨position, .inl hlease⟩
      · refine ⟨position, .inr (.inl ⟨leaseExpiry, v, value, ?_, hcall⟩)⟩
        rw [hvisited]
        exact List.mem_cons_of_mem _ hphase
      · exact ⟨position, .inr (.inr hrelease)⟩

/-- A checkpoint call follows a task that succeeded and its serialization, and
carries what the latter gave. -/
theorem Reached.checkpoint_sent (hr : s.Reached c r) {call : AdapterCall} (hc : call ∈ s.sent)
    (hcheckpoint : call.isCheckpoint = true) :
    ∃ ending v value position, s.ended = [ending] ∧ ending.input = .taskSettled (.ok v) ∧
      s.serializations = [.ok value] ∧
      call = .checkpoint r.workflowId value r.fencingToken position c.idempotencyKey := by
  obtain ⟨position, rfl | ⟨leaseExpiry, v, value, hphase, rfl⟩ | rfl⟩ := hr.sent_cases hc
  · contradiction
  · obtain ⟨ending, hended, hinput⟩ := hr.ended_of_visited hphase rfl
    exact ⟨ending, v, value, position, hended, hinput, hr.saved.saving _ _ _ hphase, rfl⟩
  · contradiction

/-- A release and a checkpoint follow from different ends of the task. -/
theorem Reached.no_checkpoint_of_rejected (hr : s.Reached c r) {ending : Taken V} {err : Thrown}
    (hended : s.ended = [ending]) (hinput : ending.input = .taskSettled (.error err)) :
    s.sent.countP AdapterCall.isCheckpoint = 0 := by
  rw [List.countP_eq_zero]
  intro call hcall hcheckpoint
  obtain ⟨ending', v, value, position, hended', hinput', -, -⟩ :=
    hr.checkpoint_sent hcall hcheckpoint
  rw [hended] at hended'
  cases hended'
  rw [hinput] at hinput'
  cases hinput'

/-- A release was sent for the one end of the task, a rejection. -/
theorem Reached.release_sent (hr : s.Reached c r) {call : AdapterCall} (hc : call ∈ s.sent)
    (hrelease : call.isRelease = true) :
    ∃ ending err, s.ended = [ending] ∧ ending.input = .taskSettled (.error err) ∧
      s.sent.filter AdapterCall.isRelease = [ending.release] ∧ call = ending.release := by
  have hmem : call ∈ s.sent.filter AdapterCall.isRelease := List.mem_filter.mpr ⟨hc, hrelease⟩
  have hequation := hr.releases_eq
  rw [hequation] at hmem
  have hlength := hr.told.once
  match hended : s.ended with
  | [] =>
      rw [hended] at hmem
      contradiction
  | [ending] =>
      rw [hended] at hmem hequation
      cases hrejected : ending.input.rejected with
      | false => simp [hrejected] at hmem
      | true =>
          simp only [List.filter_cons, hrejected, if_true, List.filter_nil, List.map_cons,
            List.map_nil] at hmem hequation
          obtain ⟨err, hinput⟩ : ∃ err, ending.input = .taskSettled (.error err) := by
            cases hinput : ending.input with
            | taskSettled result =>
                cases result with
                | error err => exact ⟨err, rfl⟩
                | ok v =>
                    rw [hinput] at hrejected
                    contradiction
            | _ =>
                rw [hinput] at hrejected
                contradiction
          exact ⟨ending, err, rfl, hinput, hequation, List.mem_singleton.mp hmem⟩
  | _ :: _ :: _ =>
      rw [hended] at hlength
      simp at hlength

/-! ## The lease loop -/

/-- What the turns say about the lease loop: `errorCount` counts the errors it
caught, and it goes on after one only, for one reason only. -/
structure Retried (s : Transcript V) : Prop where
  count : ∀ k, s.phase.errorCount? = some k → s.leaseErrors.length = k
  once : (∀ err, s.phase ≠ .thrown err) → s.leaseErrors.length ≤ 1 ∧
    ∀ turn ∈ s.turns, ∀ err, turn.leaseError? = some err →
      err.message? = some ErrCodes.FencingTokenNotFound.text ∧ turn.runner.position = 0

private theorem retried_step {l : Int × Input V} (h : s.Retried) (hs : step c s l = some s') :
    s'.Retried := by
  obtain ⟨turn, hturn, rfl⟩ := step_cases hs
  have hunsettled := (ExecuteCall.resume_cases hturn).not_settled
  have hgoing : ∀ err, s.phase ≠ .thrown err := by
    intro err hphase
    rw [hphase] at hunsettled
    contradiction
  obtain ⟨hone, hall⟩ := h.once hgoing
  rcases Taken.leaseError?_cases turn.runner hturn with ⟨err, k, herror, hk, hfailed⟩ |
    ⟨hnone, hsame⟩
  · have hlength := h.count k hk
    unfold ExecuteCall.leaseFailed at hfailed
    split at hfailed
    · next hretry =>
        obtain ⟨hmessage, hposition, hfirst⟩ := hretry
        have hnew : (s.leaseErrors.length + 1) = 1 := by omega
        constructor
        case count =>
          intro k' hk'
          rw [hfailed] at hk'
          cases hk'
          rw [leaseErrors, List.filterMap_cons_some herror, List.length_cons,
            ← leaseErrors, hlength]
        case once =>
          intro _
          constructor
          · rw [leaseErrors, List.filterMap_cons_some herror, List.length_cons]
            exact Nat.le_of_eq hnew
          · intro t ht err' herr'
            rcases List.mem_cons.mp ht with rfl | ht
            · rw [herror] at herr'
              cases herr'
              exact ⟨hmessage, hposition⟩
            · exact hall t ht err' herr'
    · constructor
      case count =>
        intro k' hk'
        rw [hfailed] at hk'
        contradiction
      case once =>
        intro hno
        rw [hfailed] at hno
        exact absurd rfl (hno err)
  · constructor
    case count =>
      intro k hk
      rw [leaseErrors, List.filterMap_cons_none hnone]
      exact h.count k (hsame k hk)
    case once =>
      intro _
      constructor
      · rw [leaseErrors, List.filterMap_cons_none hnone]
        exact hone
      · intro t ht err herr
        rcases List.mem_cons.mp ht with rfl | ht
        · rw [hnone] at herr
          contradiction
        · exact hall t ht err herr

theorem Reached.retried (hr : s.Reached c r) : s.Retried := by
  refine hr.invariant Retried ?_ fun _ _ _ h _ hs => retried_step h hs
  intro s h
  rw [h]
  constructor
  · intro k hk
    cases hk
    rfl
  · intro _
    refine ⟨Nat.zero_le 1, fun turn hturn => ?_⟩
    contradiction

/-- The task was started on a lease reply with neither a value nor a remaining
timeout. -/
theorem Reached.granted (hr : s.Reached c r) {beforeExecution : Int}
    (hp : Phase.running beforeExecution ∈ s.visited) :
    ∃ turn ∈ s.turns, turn.Grants beforeExecution := by
  refine hr.invariant (fun s => ∀ t, Phase.running t ∈ s.visited →
    ∃ turn ∈ s.turns, turn.Grants t) ?_ ?_ beforeExecution hp
  · intro s h t ht
    rw [h] at ht
    cases List.mem_singleton.mp ht
  · intro s l s' ih _ hs t ht
    rw [visited_step hs, List.mem_cons] at ht
    obtain ⟨turn, hturn, rfl⟩ := step_cases hs
    rcases ht with hnow | hbefore
    · obtain ⟨k, value, remaining, hphase, hinput, hvalue, hremaining⟩ :=
        (ExecuteCall.resume_cases hturn).running_cases hnow.symm
      exact ⟨_, List.mem_cons_self, k, value, remaining, hphase, hinput, hvalue, hremaining⟩
    · obtain ⟨turn, hturn, hgrants⟩ := ih t hbefore
      exact ⟨turn, List.mem_cons_of_mem _ hturn, hgrants⟩

/-! ## A runner used by one call at a time -/

/-- A runner used by this call only stands where the call found it, until the
call returns. -/
structure Kept (r : Runner) (s : Transcript V) : Prop where
  returned : ∀ v, s.phase = .returned v → s.runner = r.advance
  unreturned : (∀ v, s.phase ≠ .returned v) → s.runner = r
  turns : ∀ turn ∈ s.turns, turn.runner = r

theorem Alone.kept (hr : s.Alone c r) : s.Kept r := by
  refine hr.invariant (Kept r) ?_ ?_
  · intro s h
    rw [h]
    constructor
    · intro v hphase
      cases hphase
    · exact fun _ => rfl
    · intro turn hturn
      contradiction
  · intro s l s' ih hok hs
    obtain ⟨turn, hturn, rfl⟩ := step_cases hs
    have hadvances := ExecuteCall.resume_cases hturn
    have hrunner : s.runner = r := by
      refine ih.unreturned fun v hphase => ?_
      have hunsettled := hadvances.not_settled
      rw [hphase] at hunsettled
      contradiction
    have hfound : s.runner.moved l.1 = r := by rw [hok, Runner.moved_self, hrunner]
    rw [hfound] at hadvances ⊢
    constructor
    case returned => exact fun v hphase => hadvances.runner_of_returned hphase
    case unreturned =>
      intro hno
      rcases hadvances.runner_eq with hsame | ⟨-, v, hphase⟩
      · exact hsame
      · exact absurd hphase (hno v)
    case turns =>
      intro t ht
      rcases List.mem_cons.mp ht with rfl | ht
      · rfl
      · exact ih.turns t ht

/-- Every call carries the position the runner stood at. -/
theorem Alone.sent_position (hr : s.Alone c r) {call : AdapterCall} (hc : call ∈ s.sent) :
    call.position? = some r.position := by
  refine hr.invariant_of_reachable (fun s => ∀ call ∈ s.sent, call.position? = some r.position)
    ?_ ?_ call hc
  · intro s h call hcall
    rw [h] at hcall
    rw [List.mem_singleton.mp hcall]
    rfl
  · intro s l s' (hr : s.Alone c r) ih hok hs call hcall
    obtain ⟨turn, hturn, rfl⟩ := step_cases hs
    have hadvances := ExecuteCall.resume_cases hturn
    rw [List.mem_append, Option.mem_toList] at hcall
    rcases hcall with hnow | hbefore
    · have hposition : l.1 = r.position := by
        rw [hok, hr.kept.unreturned]
        intro v hphase
        have hunsettled := hadvances.not_settled
        rw [hphase] at hunsettled
        contradiction
      rcases hadvances.call_cases hnow with
        ⟨k, -, -, rfl⟩ | ⟨leaseExpiry, v, value, -, -, rfl⟩ |
        ⟨_, err, -, -, -, rfl⟩
      · rw [← hposition]
        rfl
      · rw [← hposition]
        rfl
      · rw [← hposition]
        rfl
    · exact ih call hbefore

end Transcript

end IdempotentTransformer
