import IdempotentTransformer.Client.Transcript

/-!
# IdempotentTransformer.Client.Failure

What becomes of a task that fails after its lease was granted.

A task that rejects has its lease given back and its error passed on,
unless the release call rejects with an error of its own or the runner has
moved on; a task that throws before it returns keeps its lease
(`gives_back_iff`).
-/

namespace IdempotentTransformer

open Library

namespace Transcript

variable {V : Type} {c : ExecuteCall} {r : Runner} {s s' : Transcript V} {err : Thrown}

/-- The task failed, by throwing before it returned or by rejecting. -/
def Failed (s : Transcript V) (err : Thrown) : Prop :=
  ∃ turn ∈ s.turns, turn.phase.working = true ∧
    (turn.input = .taskThrew err ∨ turn.input = .taskSettled (.error err))

/-- The lease of the position last asked for was given back and nothing else
done, and the call throws the task's own error. -/
structure GivesBack (r : Runner) (s : Transcript V) (err : Thrown) : Prop where
  released : ∃ position, s.asked? = some position ∧
    s.sent.filter AdapterCall.isRelease = [.releaseLeaseCheckpoint r.workflowId position]
  unsaved : s.sent.countP AdapterCall.isCheckpoint = 0
  unmoved : ∀ turn ∈ s.turns, turn.left = turn.runner
  thrown : s.phase = .thrown err

/-- The task failed by rejecting, while the runner stood at the position the
lease was asked for, and the release call did not reject with another
error. -/
structure Releases (s : Transcript V) (err : Thrown) : Prop where
  rejected : ∃ turn ∈ s.turns, turn.phase.working = true ∧
    turn.input = .taskSettled (.error err) ∧ s.asked? = some turn.runner.position
  unmasked : ∀ turn ∈ s.turns, turn.phase.giving = true →
    ∀ err' now, turn.input = .reply (.error err') now → err' = err

/-- The release call settles the call: with the task's error, or with its own. -/
private theorem releasing_cases {phase : Phase V} {input : Input V} {turn : Turn V}
    (h : c.resume r phase input = some turn) (hp : phase = .releasing err) :
    (∃ reply now, input = .reply (.ok reply) now ∧ turn.phase = .thrown err) ∨
      ∃ err' now, input = .reply (.error err') now ∧ turn.phase = .thrown err' := by
  unfold ExecuteCall.resume at h
  split at h
  case h_9 err' now =>
    cases hp
    cases h
    exact .inl ⟨_, now, rfl, rfl⟩
  case h_10 _ err' now =>
    cases h
    exact .inr ⟨err', now, rfl, rfl⟩
  all_goals contradiction

/-- How a call stands that waited for its release call. -/
def GivenBack (s : Transcript V) (err : Thrown) (input : Input V) : Prop :=
  (∃ reply now, input = .reply (.ok reply) now ∧ s.phase = .thrown err) ∨
    ∃ err' now, input = .reply (.error err') now ∧ s.phase = .thrown err'

theorem Reached.givenBack (hr : s.Reached c r) {turn : Taken V} (ht : turn ∈ s.turns)
    (hp : turn.phase = .releasing err) : s.GivenBack err turn.input := by
  refine hr.invariant (fun s => ∀ turn ∈ s.turns, ∀ err, turn.phase = .releasing err →
    s.GivenBack err turn.input) ?_ ?_ turn ht err hp
  · intro s h turn hturn
    rw [h] at hturn
    contradiction
  · intro s l s' ih _ hs t ht err hphase
    obtain ⟨turn, hturn, rfl⟩ := step_cases hs
    rcases List.mem_cons.mp ht with rfl | ht
    · exact releasing_cases hturn hphase
    · exfalso
      have hunsettled := (ExecuteCall.resume_cases hturn).not_settled
      rcases ih t ht err hphase with ⟨_, _, -, hthrown⟩ | ⟨_, _, -, hthrown⟩
      · rw [hthrown] at hunsettled
        contradiction
      · rw [hthrown] at hunsettled
        contradiction

/-- A call whose task rejected goes to its release call. -/
theorem Reached.releasing_visited (hr : s.Reached c r) {turn : Taken V} (ht : turn ∈ s.turns)
    (hp : turn.phase.working = true) (hi : turn.input = .taskSettled (.error err)) :
    Phase.releasing err ∈ s.visited := by
  refine hr.invariant (fun s => ∀ turn ∈ s.turns, turn.phase.working = true → ∀ err,
    turn.input = .taskSettled (.error err) →
      Phase.releasing err ∈ s.visited) ?_ ?_ turn ht hp err hi
  · intro s h turn hturn
    rw [h] at hturn
    contradiction
  · intro s l s' ih _ hs t ht hworking err hinput
    rw [visited_step hs]
    obtain ⟨turn, hturn, rfl⟩ := step_cases hs
    rcases List.mem_cons.mp ht with rfl | ht
    · have hinput : l.2 = .taskSettled (.error err) := hinput
      have hworking : s.phase.working = true := hworking
      cases hphase : s.phase with
      | running beforeExecution =>
          rw [hphase, hinput] at hturn
          cases hturn
          exact List.mem_cons_self
      | _ =>
          rw [hphase] at hworking
          contradiction
    · exact List.mem_cons_of_mem _ (ih t ht hworking err hinput)

/-- A call moves the runner in its last turn only, and only to return. -/
theorem Reached.unmoved (hr : s.Reached c r) (hs : ∀ v, s.phase ≠ .returned v) :
    ∀ turn ∈ s.turns, turn.left = turn.runner := by
  refine hr.invariant (fun s => (∀ v, s.phase ≠ .returned v) →
    ∀ turn ∈ s.turns, turn.left = turn.runner) ?_ ?_ hs
  · intro s h _ turn hturn
    rw [h] at hturn
    contradiction
  · intro s l s' ih _ hs hno t ht
    obtain ⟨turn, hturn, rfl⟩ := step_cases hs
    have hadvances := ExecuteCall.resume_cases hturn
    rcases List.mem_cons.mp ht with rfl | ht
    · rcases hadvances.runner_eq with hsame | ⟨-, v, hphase⟩
      · exact hsame
      · exact absurd hphase (hno v)
    · refine ih (fun v hphase => ?_) t ht
      have hunsettled := hadvances.not_settled
      rw [hphase] at hunsettled
      contradiction

/-- A turn the task ended on is the one turn it ended on. -/
private theorem ended_eq {turn ending : Taken V} (ht : turn ∈ s.turns)
    (hp : turn.phase.working = true) (hended : s.ended = [ending]) : turn = ending := by
  have hmem : turn ∈ s.ended := List.mem_filter.mpr ⟨ht, hp⟩
  rw [hended] at hmem
  exact List.mem_singleton.mp hmem

private theorem releases_of_givesBack (hr : s.Reached c r) (hf : s.Failed err)
    (hg : s.GivesBack r err) : s.Releases err := by
  obtain ⟨position, hasked, hreleases⟩ := hg.released
  have hsent : AdapterCall.releaseLeaseCheckpoint r.workflowId position ∈ s.sent := by
    refine (List.mem_filter (p := AdapterCall.isRelease).mp ?_).1
    rw [hreleases]
    exact List.mem_singleton_self _
  obtain ⟨ending, err', hended, hinput, -, hcall⟩ := hr.release_sent hsent rfl
  obtain ⟨turn, hturn, hworking, hfailed⟩ := hf
  have heq : turn = ending := ended_eq hturn hworking hended
  subst heq
  have hrejected : turn.input = .taskSettled (.error err) := by
    rcases hfailed with hthrew | hrejected
    · rw [hinput] at hthrew
      cases hthrew
    · exact hrejected
  constructor
  case rejected =>
    refine ⟨turn, hturn, hworking, hrejected, ?_⟩
    have hposition : position = turn.runner.position :=
      congrArg (fun call => call.position?.getD 0) hcall
    rw [hasked, hposition]
  case unmasked =>
    intro t ht hgiving err' now hreply
    cases hphase : t.phase with
    | releasing e =>
        rcases hr.givenBack ht hphase with ⟨_, _, hok, -⟩ | ⟨err'', _, herror, hthrown⟩
        · rw [hreply] at hok
          cases hok
        · rw [hreply] at herror
          cases herror
          rw [hg.thrown] at hthrown
          cases hthrown
          rfl
    | _ =>
        rw [hphase] at hgiving
        contradiction

private theorem givesBack_of_releases (hr : s.Reached c r) (hs : s.phase.settled = true)
    (hg : s.Releases err) : s.GivesBack r err := by
  obtain ⟨turn, hturn, hworking, hinput, hasked⟩ := hg.rejected
  -- The call settled, so its release call did.
  have hvisited := hr.releasing_visited hturn hworking hinput
  rcases List.mem_cons.mp hvisited with hnow | hbefore
  · rw [← hnow] at hs
    contradiction
  obtain ⟨giving, hgiving, hphase⟩ := List.mem_map.mp hbefore
  have hthrown : s.phase = .thrown err := by
    rcases hr.givenBack hgiving hphase with ⟨_, _, -, hthrown⟩ | ⟨err', now, hreply, hthrown⟩
    · exact hthrown
    · rw [hthrown, hg.unmasked giving hgiving (by rw [hphase]; rfl) err' now hreply]
  obtain ⟨ending, hended, -⟩ := hr.ended_of_visited hvisited rfl
  have heq : turn = ending := ended_eq hturn hworking hended
  subst heq
  constructor
  case released =>
    have hrejected : turn.input.rejected = true := by
      rw [hinput]
      rfl
    have hworkflow : turn.runner.workflowId = r.workflowId := by
      rw [hr.turn_runner hturn]
      rfl
    refine ⟨turn.runner.position, hasked, ?_⟩
    rw [hr.releases_eq, hended]
    simp only [List.filter_cons, hrejected, if_true, List.filter_nil,
      List.map_cons, List.map_nil, Taken.release, hworkflow]
  case unsaved => exact hr.no_checkpoint_of_rejected hended hinput
  case unmoved =>
    refine hr.unmoved fun v hreturned => ?_
    rw [hthrown] at hreturned
    cases hreturned
  case thrown => exact hthrown

/-- **A failed task gives its lease back and reports its own error** exactly
if it rejects where the lease was asked for and the release call adds no
error of its own. -/
theorem gives_back_iff (hr : s.Reached c r) (hf : s.Failed err) (hs : s.phase.settled = true) :
    s.GivesBack r err ↔ s.Releases err :=
  ⟨releases_of_givesBack hr hf, givesBack_of_releases hr hs⟩

/-! ## One task, failing three ways -/

def unattendedCall : ExecuteCall :=
  { idempotencyKey := "k", options := { leaseTimeout := none, onAbort := none } }

/-- The runner it is called on. -/
def payRunner : Runner := .start "pay" none 1

/-- The task's lease is granted, then the call goes on with `inputs`. -/
def failing (inputs : List (Input Nat)) : Option (Transcript Nat) :=
  exec (step unattendedCall) (start unattendedCall (Runner.start "pay" none 1))
    ((Input.reply (.ok (.leaseCheckpoint none none)) 5 :: inputs).map fun input => (0, input))

/-- A task that rejects, and whose release call is answered, gives its lease
back. -/
theorem rejected_task_gives_back :
    ∃ s, failing [.taskSettled (.error (.error "declined")),
        .reply (.ok .releaseLeaseCheckpoint) 9] = some s ∧
      s.GivesBack (Runner.start "pay" none 1) (.error "declined") := by
  have hs : failing [.taskSettled (.error (.error "declined")),
        .reply (.ok .releaseLeaseCheckpoint) 9] =
      some
        { runner := payRunner
          phase := .thrown (.error "declined")
          turns :=
            [⟨payRunner, .releasing (.error "declined"), .reply (.ok .releaseLeaseCheckpoint) 9,
                payRunner⟩,
              ⟨payRunner, .running 5, .taskSettled (.error (.error "declined")), payRunner⟩,
              ⟨payRunner, .leasing 0, .reply (.ok (.leaseCheckpoint none none)) 5, payRunner⟩]
          sent :=
            [.releaseLeaseCheckpoint "pay" 0, .leaseCheckpoint "pay" 1 30000 0 "k"] } := rfl
  refine ⟨_, hs, (gives_back_iff (c := unattendedCall) (Reachable.of_exec (.start rfl) hs)
    ⟨_, .tail _ (.head _), rfl, .inr rfl⟩ rfl).mpr ⟨⟨_, .tail _ (.head _), rfl, rfl, rfl⟩, ?_⟩⟩
  intro turn hturn hgiving err' now hinput
  rcases hturn with _ | ⟨_, _ | ⟨_, _ | ⟨_, hturn⟩⟩⟩
  · cases hinput
  · contradiction
  · contradiction
  · contradiction

/-- A task that throws before it returns keeps its lease; and where the release
call rejects, the caller sees that error instead of the task's. -/
theorem thrown_task_keeps_lease :
    (∃ s, failing [.taskThrew (.error "declined")] = some s ∧
      s.Failed (.error "declined") ∧ s.phase = .thrown (.error "declined") ∧
      s.sent.filter AdapterCall.isRelease = [] ∧
      ¬ s.GivesBack (Runner.start "pay" none 1) (.error "declined")) ∧
    ∃ s, failing [.taskSettled (.error (.error "declined")),
        .reply (.error (.error "unavailable")) 9] = some s ∧
      s.Failed (.error "declined") ∧ s.phase = .thrown (.error "unavailable") ∧
      ¬ s.GivesBack (Runner.start "pay" none 1) (.error "declined") := by
  constructor
  · refine ⟨_, rfl, ⟨_, .head _, rfl, .inl rfl⟩, rfl, rfl, fun h => ?_⟩
    obtain ⟨position, -, hreleases⟩ := h.released
    cases hreleases
  · refine ⟨_, rfl, ⟨_, .tail _ (.head _), rfl, .inr rfl⟩, rfl, fun h => ?_⟩
    exact absurd h.thrown (by decide)

end Transcript

end IdempotentTransformer
