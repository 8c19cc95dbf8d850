import IdempotentTransformer.Client.Transcript

/-!
# IdempotentTransformer.Client.Conduct

The call discipline of `execute` on a runner used one `execute` at a time,
whatever the adapter replies, the clock shows, and the task and the
serializer do: `execute_disciplined`.

Every state of a run is looked at, so what a field says of the calls sent
so far it says of their order too.
-/

namespace IdempotentTransformer

open Library

namespace Transcript

variable {V : Type} {c : ExecuteCall} {r : Runner} {s s' : Transcript V}

/-- What an `execute` call that found its runner at `r` may have done. -/
structure Disciplined (c : ExecuteCall) (r : Runner) (s : Transcript V) : Prop where
  /-- The task is started at most once, -/
  starts_once : s.starts ≤ 1
  /-- and on a lease reply with neither a value nor a remaining timeout. -/
  starts_granted : ∀ now, Phase.running now ∈ s.visited → ∃ turn ∈ s.turns, turn.Grants now
  /-- Every call is about the position the runner stood at. -/
  sent_position : ∀ call ∈ s.sent, call.position? = some r.position
  /-- A checkpoint call comes after the task and the serializer succeeded, with
  the key of the call and the bytes of the serializer. -/
  checkpoint_sent : ∀ call ∈ s.sent, call.isCheckpoint = true →
    ∃ ending v value, s.ended = [ending] ∧ ending.input = .taskSettled (.ok v) ∧
      s.serializations = [.ok value] ∧
      call = .checkpoint r.workflowId value r.fencingToken r.position c.idempotencyKey
  /-- All checkpoint calls are one call. -/
  checkpoint_same : ∀ call ∈ s.sent, ∀ call' ∈ s.sent, call.isCheckpoint = true →
    call'.isCheckpoint = true → call = call'
  /-- A turn that sends a checkpoint call comes before any is answered. -/
  checkpoint_unanswered : ∀ l s', step c s l = some s' →
    s'.sent.countP AdapterCall.isCheckpoint ≠ s.sent.countP AdapterCall.isCheckpoint →
    ∀ turn ∈ s'.turns, turn.answered = false
  /-- A release is sent once, for a task that rejected, beside no checkpoint. -/
  release_sent : ∀ call ∈ s.sent, call.isRelease = true →
    call = .releaseLeaseCheckpoint r.workflowId r.position ∧
      (∃ ending err, s.ended = [ending] ∧ ending.input = .taskSettled (.error err)) ∧
      s.sent.countP AdapterCall.isRelease = 1 ∧ s.sent.countP AdapterCall.isCheckpoint = 0
  /-- A call that goes on after an error of the lease loop does so once, -/
  retried_once : (∀ err, s.phase ≠ .thrown err) → s.leaseErrors.length ≤ 1
  /-- and after `fencing_token_not_found` at position 0. -/
  retried_for : (∀ err, s.phase ≠ .thrown err) →
    ∀ turn ∈ s.turns, ∀ err, turn.leaseError? = some err →
      err.message? = some ErrCodes.FencingTokenNotFound.text ∧ turn.runner.position = 0
  /-- A return moves the runner by one position, -/
  returned : ∀ v, s.phase = .returned v → s.runner = r.advance
  /-- and nothing else does: -/
  unreturned : (∀ v, s.phase ≠ .returned v) → s.runner = r
  /-- the next call after one that threw asks for the same position. -/
  repeated : ∀ err, s.phase = .thrown err → ∀ (c' : ExecuteCall) (s' : Transcript V),
    Begun c' s.runner s' → s'.asked? = some r.position

/-- A turn that sends a checkpoint call waits for its reply. -/
private theorem saving_of_sent {l : Int × Input V} (hs : step c s l = some s')
    (hc : s'.sent.countP AdapterCall.isCheckpoint ≠ s.sent.countP AdapterCall.isCheckpoint) :
    s'.phase.saving = true := by
  obtain ⟨turn, hturn, rfl⟩ := step_cases hs
  have hadvances := ExecuteCall.resume_cases hturn
  cases hcall : turn.call with
  | none =>
      simp only [hcall, Option.toList_none, List.nil_append, ne_eq, not_true_eq_false] at hc
  | some call =>
      rcases hadvances.call_cases hcall with ⟨k, -, -, rfl⟩ |
        ⟨leaseExpiry, v, value, hphase, -, -⟩ | ⟨_, err, -, -, -, rfl⟩
      · simp [hcall, AdapterCall.isCheckpoint] at hc
      · rw [hphase]
        rfl
      · simp [hcall, AdapterCall.isCheckpoint] at hc

/-- **The call discipline of `execute`**, in every state of every run. -/
theorem execute_disciplined (hr : s.Alone c r) : s.Disciplined c r where
  starts_once := hr.reached.starts_le_one
  starts_granted := fun _ => hr.reached.granted
  sent_position := fun _ => hr.sent_position
  checkpoint_sent := by
    intro call hcall hcheckpoint
    obtain ⟨ending, v, value, position, hended, hinput, hserialized, rfl⟩ :=
      hr.reached.checkpoint_sent hcall hcheckpoint
    have hposition : position = r.position := Option.some.inj (hr.sent_position hcall)
    exact ⟨ending, v, value, hended, hinput, hserialized, by rw [hposition]⟩
  checkpoint_same := by
    intro call hcall call' hcall' hcheckpoint hcheckpoint'
    obtain ⟨_, _, value, position, -, -, hserialized, rfl⟩ :=
      hr.reached.checkpoint_sent hcall hcheckpoint
    obtain ⟨_, _, value', position', -, -, hserialized', rfl⟩ :=
      hr.reached.checkpoint_sent hcall' hcheckpoint'
    have hposition : position = r.position := Option.some.inj (hr.sent_position hcall)
    have hposition' : position' = r.position := Option.some.inj (hr.sent_position hcall')
    rw [hserialized] at hserialized'
    cases hserialized'
    rw [hposition, hposition']
  checkpoint_unanswered := by
    intro l s' hs hsent turn hturn
    have hreached : s'.Reached c r := .step hr.reached trivial hs
    have hsaving := saving_of_sent hs hsent
    by_contra hanswered
    rw [Bool.not_eq_false] at hanswered
    have hsettled := hreached.settled_of_answered hturn hanswered
    cases hphase : s'.phase <;> rw [hphase] at hsaving hsettled <;> contradiction
  release_sent := by
    intro call hcall hrelease
    obtain ⟨ending, err, hended, hinput, hreleases, rfl⟩ :=
      hr.reached.release_sent hcall hrelease
    have hmem : ending ∈ s.turns := by
      have hending : ending ∈ s.ended := by
        rw [hended]
        exact List.mem_singleton_self ending
      exact (List.mem_filter.mp hending).1
    refine ⟨by rw [Taken.release, hr.kept.turns ending hmem], ⟨ending, err, hended, hinput⟩, ?_,
      hr.reached.no_checkpoint_of_rejected hended hinput⟩
    rw [List.countP_eq_length_filter, hreleases]
    rfl
  retried_once := fun h => (hr.reached.retried.once h).1
  retried_for := fun h => (hr.reached.retried.once h).2
  returned := hr.kept.returned
  unreturned := hr.kept.unreturned
  repeated := by
    intro err hphase c' s' hbegun
    have hrunner : s.runner = r := by
      refine hr.kept.unreturned fun v hreturned => ?_
      rw [hphase] at hreturned
      cases hreturned
    rw [hbegun, hrunner]
    rfl

/-- A task under a lease timeout of a second. -/
def secondTryCall : ExecuteCall :=
  { idempotencyKey := "k", options := { leaseTimeout := some 1000, onAbort := none } }

/-- The lease is granted after an error, and the result saved at the second try. -/
def secondTry : List (Int × Input Nat) :=
  [(0, .reply (.error (.error "fencing_token_not_found")) 0), (0, .wake),
    (0, .reply (.ok (.leaseCheckpoint none none)) 5), (0, .taskSettled (.ok 7)),
    (0, .serialized (.ok (.bytes [7])) 10), (0, .reply (.error (.error "")) 20),
    (0, .reply (.ok (.checkpoint false)) 30)]

/-- A task that succeeds, saved at the second try after a lease error. -/
theorem second_try_disciplined :
    ∃ s : Transcript Nat, s.Disciplined secondTryCall (Runner.start "pay" none 1) ∧
      s.sent.countP AdapterCall.isCheckpoint = 2 ∧ s.phase = .returned 7 := by
  obtain ⟨s, hs⟩ : ∃ s, execOk (step secondTryCall) (fun s l => l.1 = s.runner.position)
      (start secondTryCall (Runner.start "pay" none 1)) secondTry = some s :=
    Option.isSome_iff_exists.mp (by decide +kernel)
  have hr : s.Alone secondTryCall (Runner.start "pay" none 1) :=
    Reachable.of_execOk (.start rfl) hs
  refine ⟨s, execute_disciplined hr, ?_, ?_⟩
  · exact eq_of_outcome hs (fun s => s.sent.countP AdapterCall.isCheckpoint) (by decide +kernel)
  · exact eq_of_outcome hs (fun s => s.phase) (by decide +kernel)

end Transcript

end IdempotentTransformer
