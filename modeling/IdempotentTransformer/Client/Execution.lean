import IdempotentTransformer.Library.Transition
import IdempotentTransformer.Client.Execute

/-!
# IdempotentTransformer.Client.Execution

Whole runs of one `execute` call, whatever the adapter, the clock, the task,
the serializer and `onAbort.function` do, and whatever other calls do to its
runner meanwhile.

`Execution` keeps the turns the call has taken.  A call returns on one of
three turns (`resume_returned`): it deserialized the value of a lease reply,
its checkpoint was acknowledged, or it fell through the checkpoint loop.
-/

namespace IdempotentTransformer

open Library

/-- An `execute` call with the turns it has taken, latest first. -/
structure Execution (V : Type) where
  phase : Phase V
  turns : List (Phase V × Input V)

/-- Serialization failed. -/
def Input.unserialized {V : Type} : Input V → Bool
  | .serialized (.error _) _ => true
  | _ => false

namespace ExecuteCall

variable {V : Type} (c : ExecuteCall)

/-- The checkpoint loop ends by the clock: no reply came before the lease
expired. -/
def TimesOut : Phase V → Input V → Prop
  | .serializing beforeExecution _, .serialized (.ok _) now =>
      beforeExecution + c.options.leaseMilliseconds ≤ now
  | .checkpointing leaseExpiry _ _, .reply (.error _) now => leaseExpiry ≤ now
  | _, _ => False

instance (phase : Phase V) (input : Input V) : Decidable (c.TimesOut phase input) := by
  unfold TimesOut
  split <;> infer_instance

/-- The checkpoint loop ends by the clock and there is no `onAbort` to go on
with. -/
def FallsThrough (phase : Phase V) (input : Input V) : Prop :=
  c.TimesOut phase input ∧ c.options.onAbort = none

instance (phase : Phase V) (input : Input V) : Decidable (c.FallsThrough phase input) :=
  inferInstanceAs (Decidable (_ ∧ _))

/-- The checkpoint loop ends by the clock and `onAbort.function` is called. -/
def RollsBack (phase : Phase V) (input : Input V) : Prop :=
  c.TimesOut phase input ∧ ∃ onAbort ∈ c.options.onAbort, 0 < onAbort.count

instance (phase : Phase V) (input : Input V) : Decidable (c.RollsBack phase input) :=
  inferInstanceAs (Decidable (_ ∧ _))

variable {c} {r : Runner} {phase : Phase V} {input : Input V} {turn : Turn V}

/-- What follows the checkpoint loop: the call throws, returns or compensates. -/
private theorem afterCheckpoint_cases (c : ExecuteCall) (r : Runner) (v : V)
    (abort : Option Bool) :
    (abort = some true ∧ ∃ err,
        afterCheckpoint c r v abort = { runner := r, phase := .thrown err, call := none }) ∨
      ((abort = some false ∨ abort = none ∧ c.options.onAbort = none) ∧
        afterCheckpoint c r v abort =
          { runner := r.advance, phase := .returned v, call := none }) ∨
      (abort = none ∧ ∃ onAbort, c.options.onAbort = some onAbort ∧
        afterCheckpoint c r v abort = rollback r onAbort v 0) := by
  cases abort with
  | some b =>
      cases b with
      | true => exact .inl ⟨rfl, _, rfl⟩
      | false => exact .inr (.inl ⟨.inl rfl, rfl⟩)
  | none =>
      cases hoption : c.options.onAbort with
      | none =>
          refine .inr (.inl ⟨.inr ⟨rfl, rfl⟩, ?_⟩)
          simp only [afterCheckpoint, hoption, reduceCtorEq, if_false]
      | some onAbort =>
          refine .inr (.inr ⟨rfl, onAbort, rfl, ?_⟩)
          simp only [afterCheckpoint, hoption, reduceCtorEq, if_false]

private theorem afterCheckpoint_returned {v w : V} {abort : Option Bool}
    (h : (afterCheckpoint c r v abort).phase = .returned w) :
    w = v ∧ (abort = some false ∨ abort = none ∧ c.options.onAbort = none) := by
  rcases afterCheckpoint_cases c r v abort with ⟨-, err, heq⟩ | ⟨hreturns, heq⟩ |
    ⟨-, onAbort, -, heq⟩
  · rw [heq] at h
    contradiction
  · rw [heq] at h
    cases h
    exact ⟨rfl, hreturns⟩
  · rw [heq] at h
    unfold rollback at h
    split at h <;> contradiction

private theorem checkpointLoop_returned {leaseExpiry now : Int} {v w : V} {value : TSerialized}
    (h : (checkpointLoop c r leaseExpiry v value now).phase = .returned w) :
    w = v ∧ leaseExpiry ≤ now ∧ c.options.onAbort = none := by
  unfold checkpointLoop at h
  split at h
  · contradiction
  · next hlate =>
      obtain ⟨heq, hacknowledged | ⟨-, hoption⟩⟩ := afterCheckpoint_returned h
      · contradiction
      · exact ⟨heq, by omega, hoption⟩

/-- **How a call returns**: with a value it deserialized, with the result of its
task once that was acknowledged without abort, or with it all the same. -/
theorem resume_returned (h : resume c r phase input = some turn) {v : V}
    (ht : turn.phase = .returned v) :
    (∃ value k, phase = .deserializing value k ∧ input = .deserialized (.ok v)) ∨
      (∃ leaseExpiry value now, phase = .checkpointing leaseExpiry v value ∧
        input = .reply (.ok (.checkpoint false)) now) ∨
      c.FallsThrough phase input := by
  unfold resume at h
  split at h
  case h_1 k value remaining now =>
    cases h
    unfold leaseReplied at ht
    split at ht
    · contradiction
    · split at ht <;> contradiction
  case h_2 k err now =>
    cases h
    unfold leaseFailed at ht
    split at ht <;> contradiction
  case h_4 value k v' =>
    cases h
    cases ht
    exact .inl ⟨value, k, rfl, rfl⟩
  case h_5 value k err =>
    cases h
    unfold leaseFailed at ht
    split at ht <;> contradiction
  case h_11 beforeExecution v' value now =>
    cases h
    obtain ⟨rfl, hlate, hoption⟩ := checkpointLoop_returned ht
    exact .inr (.inr ⟨hlate, hoption⟩)
  case h_13 leaseExpiry v' value abort now =>
    cases h
    obtain ⟨rfl, hfalse | ⟨hnone, -⟩⟩ := afterCheckpoint_returned ht
    · cases hfalse
      exact .inr (.inl ⟨leaseExpiry, value, now, rfl, rfl⟩)
    · contradiction
  case h_14 leaseExpiry v' value err now =>
    cases h
    obtain ⟨rfl, hlate, hoption⟩ := checkpointLoop_returned ht
    exact .inr (.inr ⟨hlate, hoption⟩)
  case h_16 =>
    rw [Option.map_eq_some_iff] at h
    obtain ⟨onAbort, -, rfl⟩ := h
    contradiction
  case h_17 =>
    rw [Option.map_eq_some_iff] at h
    obtain ⟨onAbort, -, rfl⟩ := h
    unfold rollback at ht
    split at ht <;> contradiction
  case h_18 => contradiction
  all_goals
    cases h
    contradiction

/-- The turns that settle a call with nothing left to decide. -/
def Final (c : ExecuteCall) (turn : Phase V × Input V) : Prop :=
  (∃ value k v, turn = (.deserializing value k, .deserialized (.ok v))) ∨
    (∃ leaseExpiry v value abort now,
      turn = (.checkpointing leaseExpiry v value, .reply (.ok (.checkpoint abort)) now)) ∨
    c.FallsThrough turn.1 turn.2

private theorem afterCheckpoint_settled {v : V} {abort : Option Bool}
    (h : abort ≠ none ∨ c.options.onAbort = none) :
    (afterCheckpoint c r v abort).phase.settled = true := by
  rcases afterCheckpoint_cases c r v abort with ⟨-, err, heq⟩ | ⟨-, heq⟩ |
    ⟨hnone, onAbort, hoption, -⟩
  · rw [heq]
    rfl
  · rw [heq]
    rfl
  · rw [h.resolve_left (not_not.mpr hnone)] at hoption
    contradiction

/-- The checkpoint loop ends by the clock: nothing is known of the checkpoint. -/
theorem resume_of_timesOut (r : Runner) (h : c.TimesOut phase input) :
    ∃ v, c.resume r phase input = some (afterCheckpoint c r v none) := by
  unfold TimesOut at h
  split at h
  · next beforeExecution v value now =>
      refine ⟨v, ?_⟩
      rw [resume, checkpointLoop, if_neg (by omega)]
  · next leaseExpiry v value err now =>
      refine ⟨v, ?_⟩
      rw [resume, checkpointLoop, if_neg (by omega)]
  · contradiction

/-- A final turn settles the call. -/
theorem settled_of_final (hf : c.Final (phase, input))
    (h : resume c r phase input = some turn) :
    turn.phase.settled = true := by
  rcases hf with ⟨value, k, v, heq⟩ | ⟨leaseExpiry, v, value, abort, now, heq⟩ |
    ⟨hlate, hoption⟩
  · cases heq
    cases h
    rfl
  · cases heq
    cases h
    exact afterCheckpoint_settled (.inl (by simp))
  · obtain ⟨v, hafter⟩ := resume_of_timesOut r hlate
    rw [hafter, Option.some.injEq] at h
    rw [← h]
    exact afterCheckpoint_settled (.inr hoption)

/-- A call that rolls back calls `onAbort.function`. -/
theorem rollingBack_of_rollsBack (hr : c.RollsBack phase input)
    (h : resume c r phase input = some turn) : ∃ v, turn.phase = .rollingBack v 0 := by
  obtain ⟨hlate, onAbort, hoption, hcount⟩ := hr
  obtain ⟨v, hafter⟩ := resume_of_timesOut r hlate
  rw [hafter, Option.some.injEq] at h
  subst h
  refine ⟨v, ?_⟩
  have hsome : c.options.onAbort = some onAbort := hoption
  simp only [afterCheckpoint, hsome, reduceCtorEq, if_false, rollback, if_pos hcount]

private theorem afterCheckpoint_compensating {v : V} {abort : Option Bool}
    (h : (afterCheckpoint c r v abort).phase.compensating = true) :
    abort = none ∧ ∃ onAbort ∈ c.options.onAbort, 0 < onAbort.count := by
  rcases afterCheckpoint_cases c r v abort with ⟨-, err, heq⟩ | ⟨-, heq⟩ |
    ⟨hnone, onAbort, hoption, heq⟩
  · rw [heq] at h
    contradiction
  · rw [heq] at h
    contradiction
  · rw [heq] at h
    unfold rollback at h
    split at h
    · next hcount => exact ⟨hnone, onAbort, hoption, hcount⟩
    · contradiction

private theorem checkpointLoop_compensating {leaseExpiry now : Int} {v : V}
    {value : TSerialized}
    (h : (checkpointLoop c r leaseExpiry v value now).phase.compensating = true) :
    leaseExpiry ≤ now ∧ ∃ onAbort ∈ c.options.onAbort, 0 < onAbort.count := by
  unfold checkpointLoop at h
  split at h
  · contradiction
  · next hlate => exact ⟨by omega, (afterCheckpoint_compensating h).2⟩

/-- `onAbort.function` is called first at the end of the checkpoint loop. -/
theorem compensating_cases (h : resume c r phase input = some turn)
    (ht : turn.phase.compensating = true) :
    c.RollsBack phase input ∨ phase.compensating = true := by
  unfold resume at h
  split at h
  case h_1 k value remaining now =>
    cases h
    unfold leaseReplied at ht
    split at ht
    · contradiction
    · split at ht <;> contradiction
  case h_2 k err now =>
    cases h
    unfold leaseFailed at ht
    split at ht <;> contradiction
  case h_5 value k err =>
    cases h
    unfold leaseFailed at ht
    split at ht <;> contradiction
  case h_11 beforeExecution v value now =>
    cases h
    exact .inl (checkpointLoop_compensating ht)
  case h_13 leaseExpiry v value abort now =>
    cases h
    have hnone := (afterCheckpoint_compensating ht).1
    contradiction
  case h_14 leaseExpiry v value err now =>
    cases h
    exact .inl (checkpointLoop_compensating ht)
  case h_16 => exact .inr rfl
  case h_17 => exact .inr rfl
  case h_18 => contradiction
  all_goals
    cases h
    contradiction

/-- A result that is serialized and not given up waits for its checkpoint. -/
theorem result_kept (h : resume c r phase input = some turn) {v : V}
    (hresult : phase.taskResult? = some (.ok v)) (hc : phase.compensating = false)
    (hlate : ¬ c.TimesOut phase input) (hserialized : input.unserialized = false) :
    turn.phase.taskResult? = some (.ok v) ∨ ∃ leaseExpiry value abort now,
      phase = .checkpointing leaseExpiry v value ∧
        input = .reply (.ok (.checkpoint abort)) now := by
  unfold resume at h
  split at h
  case h_11 beforeExecution v' value now =>
    cases hresult
    cases h
    have hearly : now < beforeExecution + c.options.leaseMilliseconds := by
      simpa [TimesOut] using hlate
    left
    rw [checkpointLoop, if_pos hearly]
    rfl
  case h_12 => contradiction
  case h_13 leaseExpiry v' value abort now =>
    cases hresult
    exact .inr ⟨leaseExpiry, value, abort, now, rfl, rfl⟩
  case h_14 leaseExpiry v' value err now =>
    cases hresult
    cases h
    have hearly : now < leaseExpiry := by
      simpa [TimesOut] using hlate
    left
    rw [checkpointLoop, if_pos hearly]
    rfl
  case h_9 => cases hresult
  case h_10 => cases hresult
  all_goals contradiction

end ExecuteCall

/-! ## Runs of a call -/

namespace Execution

variable {V : Type} {c : ExecuteCall}

/-- One turn.  The label is the runner as it stands then, and what the `await`
comes back with. -/
def step (c : ExecuteCall) : Step (Execution V) (Runner × Input V)
  | s, (r, input) => (c.resume r s.phase input).map fun turn =>
      { phase := turn.phase, turns := (s.phase, input) :: s.turns }

/-- A call at its first `await`. -/
def Begun (c : ExecuteCall) (s : Execution V) : Prop :=
  ∃ r, s = { phase := (c.begin r).phase, turns := [] }

/-- The runs of a call. -/
def Reached (c : ExecuteCall) (s : Execution V) : Prop :=
  Reachable (step c) anyStep (Begun c) s

/-- The call deserialized `v` from the value of a lease reply. -/
def Replayed (s : Execution V) (v : V) : Prop :=
  ∃ value k k' found remaining now,
    (Phase.deserializing value k, Input.deserialized (.ok v)) ∈ s.turns ∧
      (Phase.leasing k', Input.reply (.ok (.leaseCheckpoint found remaining)) now) ∈ s.turns ∧
      found.filter TSerialized.truthy = some value

/-- The task ended with `v`, it was serialized, and a checkpoint call that
carried it was answered without abort. -/
def Acknowledged (s : Execution V) (v : V) : Prop :=
  ∃ beforeExecution leaseExpiry value now now',
    (Phase.running beforeExecution, Input.taskSettled (.ok v)) ∈ s.turns ∧
      (Phase.serializing beforeExecution v, Input.serialized (.ok value) now) ∈ s.turns ∧
      (Phase.checkpointing leaseExpiry v value,
        Input.reply (.ok (.checkpoint false)) now') ∈ s.turns

/-- What the turns of a call say about where it stands. -/
structure Traced (c : ExecuteCall) (s : Execution V) : Prop where
  unsettled : s.phase.settled = false → ∀ turn ∈ s.turns, ¬ c.Final turn
  deserializing : ∀ value k, s.phase = .deserializing value k → ∃ k' found remaining now,
    (Phase.leasing k', Input.reply (.ok (.leaseCheckpoint found remaining)) now) ∈ s.turns ∧
      found.filter TSerialized.truthy = some value
  serializing : ∀ beforeExecution v, s.phase = .serializing beforeExecution v →
    (Phase.running beforeExecution, Input.taskSettled (.ok v)) ∈ s.turns
  checkpointing : ∀ leaseExpiry v value, s.phase = .checkpointing leaseExpiry v value →
    ∃ beforeExecution now,
      (Phase.running beforeExecution, Input.taskSettled (.ok v)) ∈ s.turns ∧
        (Phase.serializing beforeExecution v, Input.serialized (.ok value) now) ∈ s.turns

theorem traced_begun {s : Execution V} (h : Begun c s) : s.Traced c := by
  obtain ⟨r, rfl⟩ := h
  constructor
  · intro _ turn hturn
    contradiction
  · intro value k h
    cases h
  · intro beforeExecution v h
    cases h
  · intro leaseExpiry v value h
    cases h

/-- A turn keeps the trace. -/
theorem traced_step {s s' : Execution V} {l : Runner × Input V} (h : s.Traced c)
    (hs : step c s l = some s') : s'.Traced c := by
  obtain ⟨r, input⟩ := l
  simp only [step, Option.map_eq_some_iff] at hs
  obtain ⟨turn, hresume, rfl⟩ := hs
  have hadvances := ExecuteCall.resume_cases hresume
  constructor
  case unsettled =>
    intro hsettled t ht hfinal
    rcases List.mem_cons.mp ht with rfl | ht
    · rw [ExecuteCall.settled_of_final hfinal hresume] at hsettled
      contradiction
    · exact h.unsettled hadvances.not_settled t ht hfinal
  case deserializing =>
    intro value k hphase
    obtain ⟨found, remaining, now, hleasing, hinput, hfound⟩ :=
      hadvances.deserializing_cases hphase
    refine ⟨k, found, remaining, now, ?_, hfound⟩
    rw [hleasing, hinput]
    exact List.mem_cons_self
  case serializing =>
    intro beforeExecution v hphase
    have ⟨hrunning, hinput⟩ := hadvances.serializing_cases hphase
    rw [hrunning, hinput]
    exact List.mem_cons_self
  case checkpointing =>
    intro leaseExpiry v value hphase
    rcases hadvances.checkpointing_cases hphase with
      ⟨beforeExecution, now, hserializing, hinput⟩ | hold
    · refine ⟨beforeExecution, now, List.mem_cons_of_mem _ (h.serializing _ _ hserializing), ?_⟩
      rw [hserializing, hinput]
      exact List.mem_cons_self
    · obtain ⟨beforeExecution, now, htask, hserialized⟩ := h.checkpointing _ _ _ hold
      exact ⟨beforeExecution, now, List.mem_cons_of_mem _ htask,
        List.mem_cons_of_mem _ hserialized⟩

theorem Reached.traced {s : Execution V} (hr : s.Reached c) : s.Traced c :=
  hr.invariant (Traced c) (fun _ h => traced_begun h) fun _ _ _ h _ hs => traced_step h hs

/-- **A normal return means the step is durable, unless the call fell through**:
a call that returned `v` has replayed it or had it acknowledged, exactly if it
did not leave the checkpoint loop by the clock without an `onAbort`. -/
theorem durable_iff {s : Execution V} (hr : s.Reached c) {v : V} (hv : s.phase = .returned v) :
    s.Replayed v ∨ s.Acknowledged v ↔ ∀ turn ∈ s.turns, ¬ c.FallsThrough turn.1 turn.2 := by
  cases hr with
  | start h =>
      obtain ⟨r, rfl⟩ := h
      contradiction
  | @step s₀ _ l hr₀ _ hs =>
      have htraced : s₀.Traced c := Reached.traced hr₀
      obtain ⟨r, input⟩ := l
      simp only [step, Option.map_eq_some_iff] at hs
      obtain ⟨turn, hresume, rfl⟩ := hs
      -- Up to the last turn the call was unsettled: no final turn before it.
      have holder := htraced.unsettled (ExecuteCall.resume_cases hresume).not_settled
      have hnone : ∀ t ∈ s₀.turns, ¬ c.FallsThrough t.1 t.2 :=
        fun t ht hfalls => holder t ht (.inr (.inr hfalls))
      rcases ExecuteCall.resume_returned hresume hv with ⟨value, k, hphase, hinput⟩ |
        ⟨leaseExpiry, value, now, hphase, hinput⟩ | hfalls
      · refine ⟨fun _ t ht => ?_, fun _ => .inl ?_⟩
        · rcases List.mem_cons.mp ht with rfl | ht
          · rw [hphase, hinput]
            exact fun h => h.1
          · exact hnone t ht
        · obtain ⟨k', found, remaining, now, hlease, hfound⟩ :=
            htraced.deserializing value k hphase
          refine ⟨value, k, k', found, remaining, now, ?_,
            List.mem_cons_of_mem _ hlease, hfound⟩
          rw [hphase, hinput]
          exact List.mem_cons_self
      · refine ⟨fun _ t ht => ?_, fun _ => .inr ?_⟩
        · rcases List.mem_cons.mp ht with rfl | ht
          · rw [hphase, hinput]
            exact fun h => h.1
          · exact hnone t ht
        · obtain ⟨beforeExecution, now', htask, hserialized⟩ :=
            htraced.checkpointing leaseExpiry v value hphase
          refine ⟨beforeExecution, leaseExpiry, value, now', now, List.mem_cons_of_mem _ htask,
            List.mem_cons_of_mem _ hserialized, ?_⟩
          rw [hphase, hinput]
          exact List.mem_cons_self
      · constructor
        · intro hdurable
          exfalso
          rcases hdurable with ⟨value, k, k', found, remaining, now, hlast, -⟩ |
            ⟨beforeExecution, leaseExpiry, value, now, now', -, -, hlast⟩
          · rcases List.mem_cons.mp hlast with heq | hold
            · rw [← (Prod.mk.inj heq).1, ← (Prod.mk.inj heq).2] at hfalls
              exact hfalls.1
            · exact holder _ hold (.inl ⟨value, k, v, rfl⟩)
          · rcases List.mem_cons.mp hlast with heq | hold
            · rw [← (Prod.mk.inj heq).1, ← (Prod.mk.inj heq).2] at hfalls
              exact hfalls.1
            · exact holder _ hold (.inr (.inl ⟨leaseExpiry, v, value, false, now', rfl⟩))
        · intro hno
          exact absurd hfalls (hno _ List.mem_cons_self)

end Execution

end IdempotentTransformer
