import IdempotentTransformer.Client.Transcript

/-!
# IdempotentTransformer.Client.Rollback

The compensation loop of `execute`: when `onAbort.function` is called, how
often and what then becomes of the call, whatever it does itself and whatever
the adapter, the clock and the runner do (`rollback_disciplined`).

Where the loop stands fixes how often the function was called (`Rolling`).
-/

namespace IdempotentTransformer

open Library

/-- A call of `onAbort.function`. -/
def Phase.invoking {V : Type} : Phase V → Bool
  | .rollingBack _ _ => true
  | _ => false

/-- `onAbort.function` succeeded. -/
def Taken.compensated {V : Type} (turn : Taken V) : Bool :=
  match turn.phase, turn.input with
  | .rollingBack _ _, .rolledBack (.ok ()) => true
  | _, _ => false

/-- What a call throws at the end of the compensation loop. -/
def rolledBackError : Thrown := .workflowAborted "Workflow task rolled back and aborted."

/-- A positive `retryCount` is the bound of the loop. -/
theorem OnAbort.count_eq {onAbort : OnAbort} {n : Int} (h : onAbort.retryCount = some n)
    (hn : 0 < n) : onAbort.count = n := by
  rw [count, h, orElse, if_neg (by omega)]

namespace ExecuteCall

variable {V : Type} {c : ExecuteCall} {r : Runner} {phase : Phase V} {input : Input V}
  {turn : Turn V}

/-- What a turn of the compensation loop does. -/
theorem compensating_step (h : resume c r phase input = some turn)
    (hc : phase.compensating = true) :
    (∃ v i, phase = .rollingBack v i ∧ input = .rolledBack (.ok ()) ∧
        turn.phase = .thrown rolledBackError) ∨
      (∃ v i err milliseconds, phase = .rollingBack v i ∧ input = .rolledBack (.error err) ∧
        turn.phase = .delaying milliseconds v i) ∨
      ∃ v i milliseconds, ∃ onAbort ∈ c.options.onAbort, phase = .delaying milliseconds v i ∧
        input = .wake ∧
        turn.phase = if i + 1 < onAbort.count then .rollingBack v (i + 1)
          else .thrown rolledBackError := by
  unfold resume at h
  split at h
  case h_15 v i =>
    cases h
    exact .inl ⟨v, i, rfl, rfl, rfl⟩
  case h_16 v i err =>
    rw [Option.map_eq_some_iff] at h
    obtain ⟨onAbort, -, rfl⟩ := h
    exact .inr (.inl ⟨v, i, err, onAbort.delay, rfl, rfl, rfl⟩)
  case h_17 milliseconds v i =>
    rw [Option.map_eq_some_iff] at h
    obtain ⟨onAbort, hoption, rfl⟩ := h
    refine .inr (.inr ⟨v, i, milliseconds, onAbort, hoption, rfl, rfl, ?_⟩)
    unfold rollback
    split <;> rfl
  case h_18 => contradiction
  all_goals contradiction

/-- A turn that leaves the checkpoint loop by the clock answers no checkpoint. -/
theorem not_answered_of_timesOut {r' : Runner} (h : c.TimesOut phase input) :
    Taken.answered ⟨r, phase, input, r'⟩ = false := by
  unfold TimesOut at h
  split at h
  · rfl
  · rfl
  · contradiction

end ExecuteCall

namespace Transcript

variable {V : Type} {c : ExecuteCall} {r : Runner} {s s' : Transcript V} {n : Int}

/-- How often `onAbort.function` was called. -/
def invocations (s : Transcript V) : Nat := s.visited.countP Phase.invoking

/-- How many turns the compensation loop took. -/
def loops (s : Transcript V) : Nat := s.turns.countP fun turn => turn.phase.compensating

/-- Where the compensation loop stands. -/
structure Rolling (n : Int) (s : Transcript V) : Prop where
  before : s.phase.compensating = false → s.phase.settled = false →
    s.invocations = 0 ∧ s.loops = 0
  invoking : ∀ v i, s.phase = .rollingBack v i →
    0 ≤ i ∧ i < n ∧ (s.invocations : Int) = i + 1 ∧ (s.loops : Int) = 2 * i
  delaying : ∀ milliseconds v i, s.phase = .delaying milliseconds v i →
    0 ≤ i ∧ i < n ∧ (s.invocations : Int) = i + 1 ∧ (s.loops : Int) = 2 * i + 1
  settled : s.phase.settled = true → (s.invocations : Int) ≤ n ∧ (s.loops : Int) ≤ 2 * n ∧
    (0 < s.invocations → s.phase = .thrown rolledBackError)
  unfinished : s.phase.settled = false → ∀ turn ∈ s.turns, turn.compensated = false
  unanswered : 0 < s.invocations → ∀ turn ∈ s.turns, turn.answered = false

private theorem invocations_step {l : Int × Input V} (hs : step c s l = some s') :
    s'.invocations = s.invocations + if s'.phase.invoking then 1 else 0 := by
  rw [invocations, visited_step hs, List.countP_cons, ← invocations]

private theorem loops_step {l : Int × Input V} (hs : step c s l = some s') :
    s'.loops = s.loops + if s.phase.compensating then 1 else 0 := by
  obtain ⟨turn, -, rfl⟩ := step_cases hs
  rw [loops, List.countP_cons, ← loops]

/-- The loop ends with the first success. -/
private theorem unfinished_step {l : Int × Input V} (h : s.Rolling n)
    (hs : step c s l = some s') (hsettled : s'.phase.settled = false) :
    ∀ turn ∈ s'.turns, turn.compensated = false := by
  obtain ⟨turn, hturn, rfl⟩ := step_cases hs
  have hunsettled := (ExecuteCall.resume_cases hturn).not_settled
  intro t ht
  rcases List.mem_cons.mp ht with rfl | ht
  · unfold Taken.compensated
    split
    · next v i hphase hinput =>
        have hphase : s.phase = .rollingBack v i := hphase
        have hinput : l.2 = .rolledBack (.ok ()) := hinput
        rw [hphase, hinput] at hturn
        cases hturn
        contradiction
    · rfl
  · exact h.unfinished hunsettled t ht

/-- The loop is not entered on an answer. -/
private theorem unanswered_step {l : Int × Input V} (hr : s.Reached c r) (h : s.Rolling n)
    (hs : step c s l = some s') (hinvoked : 0 < s'.invocations) :
    ∀ turn ∈ s'.turns, turn.answered = false := by
  have hcount := invocations_step hs
  obtain ⟨turn, hturn, rfl⟩ := step_cases hs
  have hunsettled := (ExecuteCall.resume_cases hturn).not_settled
  intro t ht
  rcases List.mem_cons.mp ht with rfl | ht
  · cases hcompensating : s.phase.compensating with
    | true =>
        unfold Taken.answered
        split
        · next leaseExpiry v value abort now hphase _ =>
            have hphase : s.phase = .checkpointing leaseExpiry v value := hphase
            rw [hphase] at hcompensating
            contradiction
        · rfl
    | false =>
        have hnone := (h.before hcompensating hunsettled).1
        have hinvoking : turn.phase.invoking = true := by
          by_contra hno
          simp only [hnone, hno, if_false, Nat.add_zero] at hcount
          omega
        have hentered : turn.phase.compensating = true := by
          cases hp : turn.phase <;> rw [hp] at hinvoking <;> first | rfl | contradiction
        rcases ExecuteCall.compensating_cases hturn hentered with hrolls | hold
        · exact ExecuteCall.not_answered_of_timesOut hrolls.1
        · rw [hcompensating] at hold
          contradiction
  · by_contra hanswered
    rw [Bool.not_eq_false] at hanswered
    rw [hr.settled_of_answered ht hanswered] at hunsettled
    contradiction

/-- The loop is over. -/
private theorem rolling_of_thrown (hthrown : s.phase = .thrown rolledBackError)
    (hinvoked : (s.invocations : Int) ≤ n) (hlooped : (s.loops : Int) ≤ 2 * n)
    (hunanswered : 0 < s.invocations →
      ∀ turn ∈ s.turns, turn.answered = false) : s.Rolling n := by
  constructor
  case settled => exact fun _ => ⟨hinvoked, hlooped, fun _ => hthrown⟩
  case unanswered => exact hunanswered
  all_goals
    rw [hthrown]
    nofun

/-- The loop calls `onAbort.function`. -/
private theorem rolling_of_rollingBack {v : V} {i : Int} (hphase : s.phase = .rollingBack v i)
    (hi : 0 ≤ i ∧ i < n ∧ (s.invocations : Int) = i + 1 ∧ (s.loops : Int) = 2 * i)
    (hunfinished : s.phase.settled = false → ∀ turn ∈ s.turns, turn.compensated = false)
    (hunanswered : 0 < s.invocations →
      ∀ turn ∈ s.turns, turn.answered = false) : s.Rolling n := by
  constructor
  case invoking =>
    intro v' i' hrolling
    rw [hphase] at hrolling
    cases hrolling
    exact hi
  case unfinished => exact hunfinished
  case unanswered => exact hunanswered
  all_goals
    rw [hphase]
    nofun

/-- A turn of the loop. -/
private theorem rolling_loop {l : Int × Input V} (hcount : ∀ onAbort ∈ c.options.onAbort,
    onAbort.count = n) (hr : s.Reached c r) (h : s.Rolling n) (hs : step c s l = some s')
    (hcompensating : s.phase.compensating = true) : s'.Rolling n := by
  have hunfinished := unfinished_step h hs
  have hunanswered := unanswered_step hr h hs
  have hinvocations := invocations_step hs
  have hloops := loops_step hs
  rw [hcompensating, if_pos rfl] at hloops
  obtain ⟨turn, hturn, hs'⟩ := step_cases hs
  have hphase' : s'.phase = turn.phase := by rw [hs']
  rcases ExecuteCall.compensating_step hturn hcompensating with ⟨v, i, hphase, -, hnext⟩ |
    ⟨v, i, err, milliseconds, hphase, -, hnext⟩ |
    ⟨v, i, milliseconds, onAbort, hoption, hphase, -, hnext⟩
  · obtain ⟨hi, hin, hinvoked, hlooped⟩ := h.invoking v i hphase
    rw [hphase', hnext] at hinvocations
    simp only [Phase.invoking, Bool.false_eq_true, if_false] at hinvocations
    exact rolling_of_thrown (hphase'.trans hnext) (by omega) (by omega) hunanswered
  · obtain ⟨hi, hin, hinvoked, hlooped⟩ := h.invoking v i hphase
    rw [hphase', hnext] at hinvocations
    simp only [Phase.invoking, Bool.false_eq_true, if_false] at hinvocations
    constructor
    case delaying =>
      intro milliseconds' v' i' hdelaying
      rw [hphase', hnext] at hdelaying
      cases hdelaying
      exact ⟨hi, hin, by omega, by omega⟩
    case unfinished => exact hunfinished
    case unanswered => exact hunanswered
    all_goals
      rw [hphase', hnext]
      nofun
  · obtain ⟨hi, hin, hinvoked, hlooped⟩ := h.delaying milliseconds v i hphase
    rw [hcount onAbort hoption] at hnext
    split at hnext
    · next hmore =>
        rw [hphase', hnext] at hinvocations
        simp only [Phase.invoking, if_true] at hinvocations
        exact rolling_of_rollingBack (hphase'.trans hnext)
          ⟨by omega, hmore, by omega, by omega⟩ hunfinished hunanswered
    · next hlast =>
        rw [hphase', hnext] at hinvocations
        simp only [Phase.invoking, Bool.false_eq_true, if_false] at hinvocations
        exact rolling_of_thrown (hphase'.trans hnext) (by omega) (by omega) hunanswered

/-- A turn before the loop, or into it. -/
private theorem rolling_entry {l : Int × Input V} (hn : 0 < n) (hr : s.Reached c r)
    (h : s.Rolling n) (hs : step c s l = some s')
    (hcompensating : s.phase.compensating = false) : s'.Rolling n := by
  have hunfinished := unfinished_step h hs
  have hunanswered := unanswered_step hr h hs
  have hinvocations := invocations_step hs
  have hloops := loops_step hs
  obtain ⟨turn, hturn, hs'⟩ := step_cases hs
  have hphase' : s'.phase = turn.phase := by rw [hs']
  obtain ⟨hinvoked, hlooped⟩ :=
    h.before hcompensating (ExecuteCall.resume_cases hturn).not_settled
  simp only [hcompensating, hlooped, Bool.false_eq_true, if_false] at hloops
  rw [hinvoked, hphase'] at hinvocations
  cases hentered : turn.phase.compensating with
  | true =>
      rcases ExecuteCall.compensating_cases hturn hentered with hrolls | hold
      · obtain ⟨v, hnext⟩ := ExecuteCall.rollingBack_of_rollsBack hrolls hturn
        rw [hnext] at hinvocations
        simp only [Phase.invoking, if_true] at hinvocations
        exact rolling_of_rollingBack (hphase'.trans hnext)
          ⟨by omega, hn, by omega, by omega⟩ hunfinished hunanswered
      · rw [hcompensating] at hold
        contradiction
  | false =>
      have hinvoking : turn.phase.invoking = false := by
        cases hp : turn.phase <;> rw [hp] at hentered <;> first | rfl | contradiction
      rw [hinvoking] at hinvocations
      constructor
      case before => exact fun _ _ => ⟨hinvocations, hloops⟩
      case invoking =>
        intro v i hrolling
        rw [← hphase', hrolling] at hentered
        contradiction
      case delaying =>
        intro milliseconds v i hdelaying
        rw [← hphase', hdelaying] at hentered
        contradiction
      case settled =>
        intro _
        simp only [Bool.false_eq_true, if_false] at hinvocations
        exact ⟨by omega, by omega, by omega⟩
      case unfinished => exact hunfinished
      case unanswered => exact hunanswered

theorem Reached.rolling (hn : 0 < n) (hcount : ∀ onAbort ∈ c.options.onAbort, onAbort.count = n)
    (hr : s.Reached c r) : s.Rolling n := by
  refine hr.invariant_of_reachable (Rolling n) ?_ ?_
  · intro s h
    rw [h]
    constructor
    case before => exact fun _ _ => ⟨rfl, rfl⟩
    case unfinished => exact fun _ turn hturn => absurd hturn List.not_mem_nil
    case unanswered => exact fun _ turn hturn => absurd hturn List.not_mem_nil
    all_goals nofun
  · intro s l s' hr h _ hs
    cases hcompensating : s.phase.compensating with
    | true => exact rolling_loop hcount hr h hs hcompensating
    | false => exact rolling_entry hn hr h hs hcompensating

/-- What a call with an `onAbort` may have done, where `retryCount` is `n`. -/
structure Compensates (c : ExecuteCall) (n : Int) (s : Transcript V) : Prop where
  /-- The function is called with the result of a task that succeeded. -/
  succeeded : ∀ v i, Phase.rollingBack v i ∈ s.visited →
    ∃ ending, s.ended = [ending] ∧ ending.input = .taskSettled (.ok v)
  /-- No checkpoint call is answered beside it, -/
  unanswered : 0 < s.invocations → ∀ turn ∈ s.turns, turn.answered = false
  /-- and after an answer the call is over, without it. -/
  answered : ∀ turn ∈ s.turns, turn.answered = true →
    s.invocations = 0 ∧ ∀ l, step c s l = none
  /-- It is called at most `retryCount` times, -/
  bounded : (s.invocations : Int) ≤ n
  /-- and not again after its first success. -/
  compensated : ∀ turn ∈ s.turns, turn.compensated = true → ∀ l, step c s l = none
  /-- Once it was called, the call can only throw, -/
  thrown : 0 < s.invocations → s.phase.settled = true → s.phase = .thrown rolledBackError
  /-- it goes on whatever the function does, -/
  goesOn : 0 < s.invocations → s.phase.settled = false →
    (∃ v i, s.phase = .rollingBack v i ∧
        ∀ position result, (step c s (position, .rolledBack result)).isSome = true) ∨
      ∃ milliseconds v i, s.phase = .delaying milliseconds v i ∧
        ∀ position, (step c s (position, .wake)).isSome = true
  /-- and not for ever. -/
  ends : (s.loops : Int) ≤ 2 * n

private theorem Rolling.invocations_le (hn : 0 < n) (h : s.Rolling n) :
    (s.invocations : Int) ≤ n ∧ (s.loops : Int) ≤ 2 * n := by
  cases hsettled : s.phase.settled with
  | true => exact ⟨(h.settled hsettled).1, (h.settled hsettled).2.1⟩
  | false =>
      cases hcompensating : s.phase.compensating with
      | false =>
          obtain ⟨hinvocations, hloops⟩ := h.before hcompensating hsettled
          omega
      | true =>
          cases hphase : s.phase with
          | rollingBack v i =>
              obtain ⟨hi, hin, hinvocations, hloops⟩ := h.invoking v i hphase
              omega
          | delaying milliseconds v i =>
              obtain ⟨hi, hin, hinvocations, hloops⟩ := h.delaying milliseconds v i hphase
              omega
          | _ =>
              rw [hphase] at hcompensating
              contradiction

/-- **The compensation loop**, in every state of every run of a call with an
`onAbort` whose `retryCount` is positive. -/
theorem rollback_disciplined {onAbort : OnAbort} (hoption : c.options.onAbort = some onAbort)
    (hretry : onAbort.retryCount = some n) (hn : 0 < n) (hr : s.Reached c r) :
    s.Compensates c n := by
  have hrolling : s.Rolling n := by
    refine hr.rolling hn fun onAbort' hoption' => ?_
    have heq : onAbort' = onAbort := Option.some.inj ((hoption'.symm.trans hoption))
    rw [heq, OnAbort.count_eq hretry hn]
  constructor
  case succeeded => exact fun v i hvisited => hr.ended_of_visited hvisited rfl
  case unanswered => exact hrolling.unanswered
  case answered =>
    intro turn hturn hanswered
    refine ⟨?_, step_of_settled (hr.settled_of_answered hturn hanswered)⟩
    by_contra hinvoked
    rw [hrolling.unanswered (by omega) turn hturn] at hanswered
    contradiction
  case bounded => exact (hrolling.invocations_le hn).1
  case compensated =>
    intro turn hturn hcompensated
    refine step_of_settled ?_
    by_contra hsettled
    rw [Bool.not_eq_true] at hsettled
    rw [hrolling.unfinished hsettled turn hturn] at hcompensated
    contradiction
  case thrown => exact fun hinvoked hsettled => (hrolling.settled hsettled).2.2 hinvoked
  case goesOn =>
    intro hinvoked hsettled
    have hcompensating : s.phase.compensating = true := by
      by_contra hno
      rw [Bool.not_eq_true] at hno
      have hnone := (hrolling.before hno hsettled).1
      omega
    cases hphase : s.phase with
    | rollingBack v i =>
        refine .inl ⟨v, i, rfl, fun position result => ?_⟩
        cases result <;> simp [step, ExecuteCall.resume, hphase, hoption]
    | delaying milliseconds v i =>
        refine .inr ⟨milliseconds, v, i, rfl, fun position => ?_⟩
        simp [step, ExecuteCall.resume, hphase, hoption]
    | _ =>
        rw [hphase] at hcompensating
        contradiction
  case ends => exact (hrolling.invocations_le hn).2

/-- A task to be rolled back in at most three calls. -/
def secondRollbackCall : ExecuteCall :=
  { idempotencyKey := "k"
    options :=
      { leaseTimeout := some 1000,
        onAbort := some { retryCount := some 3, retryDelay := none } } }

/-- The lease has run out before the result is saved, and the first call of
`onAbort.function` fails. -/
def secondRollback : List (Int × Input Nat) :=
  [(0, .reply (.ok (.leaseCheckpoint none none)) 5), (0, .taskSettled (.ok 7)),
    (0, .serialized (.ok (.bytes [7])) 10), (0, .reply (.error (.error "")) 1005),
    (0, .rolledBack (.error (.error ""))), (0, .wake), (0, .rolledBack (.ok ()))]

/-- A result not saved in time; `onAbort.function` succeeds at the second call
of at most three. -/
theorem second_rollback_disciplined :
    ∃ s : Transcript Nat, s.Compensates secondRollbackCall 3 ∧
      s.invocations = 2 ∧ s.phase = .thrown rolledBackError := by
  obtain ⟨s, hs⟩ : ∃ s, exec (step secondRollbackCall)
      (start secondRollbackCall (Runner.start "pay" none 1)) secondRollback = some s :=
    Option.isSome_iff_exists.mp (by decide +kernel)
  have hr : s.Reached secondRollbackCall (Runner.start "pay" none 1) :=
    Reachable.of_exec (.start rfl) hs
  refine ⟨s, rollback_disciplined (c := secondRollbackCall) (n := 3) rfl rfl
    (by decide) hr, ?_, ?_⟩
  · exact eq_of_outcome hs (fun s => s.invocations) (by decide +kernel)
  · exact eq_of_outcome hs (fun s => s.phase) (by decide +kernel)

end Transcript

end IdempotentTransformer
