import IdempotentTransformer.Network

/-!
# IdempotentTransformer.Workers

What the calls of the workers, the requests they sent and the histories of
a network say about each other, in runs where a runner is used for one call
at a time and the workers share a serializer:

* `Shape` — a call's requests are about the position it was made at, its
  checkpoint carries the serialized result of its task, and it sends no
  release but after its task rejected (`shape_step`);
* `Record` — a reply is in the server's history, and a task was granted its
  lease before it ran (`record_step`).
-/

namespace IdempotentTransformer

open Library

/-! ## Lists that grow -/

theorem set_cases {α : Type} {l : List α} {i j : Nat} {a b : α}
    (h : (l.set i a)[j]? = some b) : (j = i ∧ b = a) ∨ (j ≠ i ∧ l[j]? = some b) := by
  rw [List.getElem?_set] at h
  split at h
  · next hij =>
      split at h
      · exact .inl ⟨hij.symm, (Option.some.inj h).symm⟩
      · contradiction
  · next hij => exact .inr ⟨Ne.symm hij, h⟩

theorem append_cases {α : Type} {l : List α} {o : Option α} {j : Nat} {b : α}
    (h : (l ++ o.toList)[j]? = some b) : l[j]? = some b ∨ (j = l.length ∧ o = some b) := by
  rw [List.getElem?_append] at h
  split at h
  · exact .inl h
  · next hlt =>
      cases o with
      | none => simp at h
      | some a =>
          simp only [Option.toList_some, List.getElem?_singleton] at h
          split at h
          · exact .inr ⟨by omega, h⟩
          · contradiction

theorem append_some {α : Type} {l m : List α} {j : Nat} {b : α} (h : l[j]? = some b) :
    (l ++ m)[j]? = some b := by
  obtain ⟨hlt, -⟩ := List.getElem?_eq_some_iff.mp h
  rw [List.getElem?_append_left hlt]
  exact h

/-! ## Assumptions -/

/-- A serializer, as the two functions it computes. -/
structure Serializer (V : Type) where
  serialize : V → TSerialized
  deserialize : TSerialized → V

/-- Deserializing what was serialized and sent gives the value back. -/
def Serializer.Inverse {V : Type} (serializer : Serializer V) (wire : Wire) : Prop :=
  ∀ v, serializer.deserialize (.bytes (GrpcAdapter.setValue wire (serializer.serialize v))) = v

/-- Where the serializer succeeds, it gives what it computes. -/
def Serializer.Explains {V : Type} (serializer : Serializer V) : Phase V → Input V → Prop
  | .serializing _ v, .serialized (.ok value) _ => value = serializer.serialize v
  | .deserializing value _, .deserialized (.ok v) => v = serializer.deserialize value
  | _, _ => True

instance {V : Type} [DecidableEq V] (serializer : Serializer V) :
    (phase : Phase V) → (input : Input V) → Decidable (serializer.Explains phase input)
  | .serializing _ v, input =>
    match input with
    | .serialized (.ok value) _ => inferInstanceAs (Decidable (value = serializer.serialize v))
    | .serialized (.error _) _ | .reply .. | .wake | .deserialized _ | .taskThrew _
    | .taskSettled _ | .rolledBack _ => .isTrue trivial
  | .deserializing value _, input =>
    match input with
    | .deserialized (.ok v) => inferInstanceAs (Decidable (v = serializer.deserialize value))
    | .deserialized (.error _) | .reply .. | .wake | .taskThrew _ | .taskSettled _
    | .serialized .. | .rolledBack _ => .isTrue trivial
  | .leasing _, _ | .waiting .., _ | .running _, _ | .releasing _, _ | .checkpointing .., _
  | .rollingBack .., _ | .delaying .., _ | .returned _, _ | .thrown _, _ => .isTrue trivial

/-- Neither cleanup nor a key request. -/
def Request.sparesRows : Request → Bool
  | .cleanUp | .generateIdempotencyKey _ => false
  | _ => true

theorem Request.sparesRows_of_leasePosition {request : Request} {place : String × Int}
    (h : request.leasePosition = some place) : request.sparesRows = true := by
  cases request <;> first | rfl | contradiction

namespace Net

variable {V : Type}

/-- A runner is used for one call at a time, all workers use the serializer,
nothing is cleaned up and nobody asks for a durable key. -/
def Guarded (serializer : Serializer V) (net : Net V) : NetLabel V → Prop
  | .execute r _ => ∀ call ∈ net.calls, call.runner = r → call.phase.settled = true
  | .resume c input => ∀ call ∈ net.calls[c]?, serializer.Explains call.phase input
  | .serve request _ => request.sparesRows = true
  | _ => True

instance [DecidableEq V] (serializer : Serializer V) (net : Net V) (l : NetLabel V) :
    Decidable (net.Guarded serializer l) :=
  match l with
  | .execute .. => inferInstanceAs (Decidable (∀ call ∈ net.calls, _ → _))
  | .resume c _ => inferInstanceAs (Decidable (∀ call ∈ net.calls[c]?, serializer.Explains _ _))
  | .serve .. => inferInstanceAs (Decidable (_ = _))
  | .start .. => .isTrue trivial
  | .handle .. => .isTrue trivial
  | .deliver .. => .isTrue trivial
  | .fail .. => .isTrue trivial
  | .tick .. => .isTrue trivial
  | .evict .. => .isTrue trivial

/-! ## The workers -/

/-- How calls, requests and ended tasks hang together. -/
structure Shape (serializer : Serializer V) (wire : Wire) (net : Net V) : Prop where
  /-- A runner stands where its call was made until the call settles. -/
  live : ∀ (c : Nat) (call : Call V), net.calls[c]? = some call → call.phase.settled = false →
    ∃ runner, net.runners[call.runner]? = some runner ∧ runner.workflowId = call.workflowId ∧
      runner.position = call.position
  /-- A runner has one call at a time. -/
  alone : ∀ (c c' : Nat) (call call' : Call V), net.calls[c]? = some call →
    net.calls[c']? = some call' →
    call.phase.settled = false → call'.phase.settled = false →
      call.runner = call'.runner → c = c'
  /-- A call's requests are about its position. -/
  sent : ∀ (n : Nat) (rpc : Rpc), net.rpcs[n]? = some rpc →
    ∃ call, net.calls[rpc.call]? = some call ∧
    rpc.request.leasePosition = some (call.workflowId, call.position)
  /-- A checkpoint carries the serialized result of the call's task. -/
  checkpoints : ∀ (n : Nat) (rpc : Rpc) data, net.rpcs[n]? = some rpc →
    rpc.request = .checkpoint data →
    ∃ v, { call := rpc.call, workflowId := data.workflowId, position := data.position
           result := .ok v } ∈ net.ended ∧
      data.value = GrpcAdapter.setValue wire (serializer.serialize v)
  /-- A release follows a task that rejected. -/
  releases : ∀ (n : Nat) (rpc : Rpc) data, net.rpcs[n]? = some rpc →
    rpc.request = .releaseCheckpoint data →
    ∃ err, { call := rpc.call, workflowId := data.workflowId, position := data.position
             result := .error err } ∈ net.ended
  /-- A call sends one release. -/
  releasedOnce : ∀ (n m : Nat) (rpc rpc' : Rpc) data data', net.rpcs[n]? = some rpc →
    net.rpcs[m]? = some rpc' →
    rpc.request = .releaseCheckpoint data → rpc'.request = .releaseCheckpoint data' →
    rpc.call = rpc'.call → n = m
  /-- A call that asks for a lease waits for its lease request. -/
  leasing : ∀ (c : Nat) (call : Call V) k, net.calls[c]? = some call → call.phase = .leasing k →
    ∃ (n : Nat) (rpc : Rpc) (data : _), call.awaiting = some n ∧ net.rpcs[n]? = some rpc ∧
      rpc.call = c ∧
      rpc.request = .leaseCheckpoint data
  early : ∀ (c : Nat) (call : Call V), net.calls[c]? = some call → call.phase.early = true →
    ∀ e ∈ net.ended, e.call ≠ c
  result : ∀ (c : Nat) (call : Call V) result, net.calls[c]? = some call →
    call.phase.taskResult? = some result →
    { call := c, workflowId := call.workflowId, position := call.position
      result := result } ∈ net.ended
  bytes : ∀ (c : Nat) (call : Call V) leaseExpiry v value, net.calls[c]? = some call →
    call.phase = .checkpointing leaseExpiry v value → value = serializer.serialize v
  endedCall : ∀ e ∈ net.ended, ∃ call, net.calls[e.call]? = some call
  /-- The task of a call ends once. -/
  endedNodup : (net.ended.map TaskEnd.call).Nodup

theorem Shape.endedOnce {serializer : Serializer V} {wire : Wire} {net : Net V}
    (h : net.Shape serializer wire) {e e' : TaskEnd V} (he : e ∈ net.ended)
    (he' : e' ∈ net.ended) (hcall : e.call = e'.call) : e = e' :=
  List.inj_on_of_nodup_map h.endedNodup he he' hcall

theorem shape_initial (serializer : Serializer V) (wire : Wire) {net : Net V}
    (h : net.initial) :
    net.Shape serializer wire := by
  obtain ⟨now, -, rfl⟩ := h
  constructor <;> simp

section Take

variable {serializer : Serializer V} {wire : Wire} {net : Net V} {c : Nat} {call : Call V}
  {runner : Runner} {input : Input V} {turn : Turn V}

/-- A call keeps its runner and its position through its turns. -/
theorem calls_set_some {c' : Nat} {old : Call V} (hc : net.calls[c]? = some call)
    (h : net.calls[c']? = some old) (awaiting : Option Nat) (phase : Phase V) :
    ∃ new, (net.calls.set c { call with phase := phase, awaiting := awaiting })[c']? =
      some new ∧
      new.runner = old.runner ∧ new.workflowId = old.workflowId ∧
        new.position = old.position := by
  obtain ⟨hlt, -⟩ := List.getElem?_eq_some_iff.mp hc
  by_cases hcc : c = c'
  · subst hcc
    rw [hc, Option.some.injEq] at h
    subst h
    exact ⟨{ call with phase := phase, awaiting := awaiting },
      List.getElem?_set_self hlt, rfl, rfl, rfl⟩
  · exact ⟨old, by rw [List.getElem?_set_ne hcc]; exact h, rfl, rfl, rfl⟩

/-- A runner keeps its workflow through the turns of its calls. -/
theorem runners_take (ha : ExecuteCall.Advances call.execute runner call.phase input turn)
    (hr : net.runners[call.runner]? = some runner) {r : Nat} {old : Runner}
    (hold : net.runners[r]? = some old) :
    ∃ new, (net.take wire c call runner input turn).runners[r]? = some new ∧
      new.workflowId = old.workflowId := by
  by_cases hrr : call.runner = r
  · subst hrr
    rw [hr, Option.some.injEq] at hold
    subst hold
    exact ⟨turn.runner, List.getElem?_set_self (List.getElem?_eq_some_iff.mp hr).1,
      ha.workflowId_eq⟩
  · refine ⟨old, ?_, rfl⟩
    show (net.runners.set call.runner turn.runner)[r]? = some old
    rw [List.getElem?_set_ne hrr]
    exact hold

/-- A call that asks for a lease waits for the request it sends. -/
private theorem getElem?_sent_lease (wire : Wire) (rpcs : List Rpc) (c : Nat)
    (execute : ExecuteCall) (runner : Runner) (k : Nat) :
    (rpcs ++ sent wire c (execute.lease runner k (V := V)))[rpcs.length]? =
      some
        { call := c
          request := .leaseCheckpoint
            { workflowId := runner.workflowId, fencingToken := runner.fencingToken
              position := runner.position, leaseTimeout := execute.options.leaseMilliseconds
              idempotencyKey := execute.idempotencyKey }
          reply := none } := by
  rw [List.getElem?_append_right (le_refl _), Nat.sub_self]
  rfl

/-- What a turn sends is about the runner's position. -/
theorem sent_cases (ha : ExecuteCall.Advances call.execute runner call.phase input turn)
    {rpc : Rpc} (hs : turn.call.map (fun call =>
      ({ call := c, request := GrpcAdapter.request wire call, reply := none } : Rpc)) =
        some rpc) :
    rpc.call = c ∧
      ((∃ data k, rpc.request = .leaseCheckpoint data ∧ turn.phase = .leasing k ∧
          data.workflowId = runner.workflowId ∧ data.position = runner.position) ∨
        (∃ data leaseExpiry v value, rpc.request = .checkpoint data ∧
          turn.phase = .checkpointing leaseExpiry v value ∧
            call.phase.taskResult? = some (.ok v) ∧
          data.workflowId = runner.workflowId ∧ data.position = runner.position ∧
          data.value = GrpcAdapter.setValue wire value) ∨
        ∃ data beforeExecution err, rpc.request = .releaseCheckpoint data ∧
          call.phase = .running beforeExecution ∧ input = .taskSettled (.error err) ∧
          data.workflowId = runner.workflowId ∧ data.position = runner.position) := by
  rw [Option.map_eq_some_iff] at hs
  obtain ⟨adapterCall, hcall, rfl⟩ := hs
  refine ⟨rfl, ?_⟩
  rcases ha.call_cases hcall with
    ⟨k, hphase, -, rfl⟩ | ⟨leaseExpiry, v, value, hphase, hresult, rfl⟩ |
    ⟨beforeExecution, err, -, hphase, hinput, rfl⟩
  · exact .inl ⟨_, k, rfl, hphase, rfl, rfl⟩
  · exact .inr (.inl ⟨_, leaseExpiry, v, value, rfl, hphase, hresult, rfl, rfl, rfl⟩)
  · exact .inr (.inr ⟨_, beforeExecution, err, rfl, hphase, hinput, rfl, rfl⟩)

section Sent

variable {rpc : Rpc} (ha : ExecuteCall.Advances call.execute runner call.phase input turn)
  (hs : turn.call.map (fun call =>
    ({ call := c, request := GrpcAdapter.request wire call, reply := none } : Rpc)) = some rpc)
include ha hs

theorem leasePosition_sent :
    rpc.request.leasePosition = some (runner.workflowId, runner.position) := by
  obtain ⟨-, hcases⟩ := sent_cases ha hs
  rcases hcases with ⟨data, k, hdata, -, hw, hp⟩ |
    ⟨data, leaseExpiry, v, value, hdata, -, -, hw, hp, -⟩ |
    ⟨data, beforeExecution, err, hdata, -, -, hw, hp⟩
  all_goals
    rw [hdata, ← hw, ← hp]
    rfl

/-- A checkpoint that is sent carries the result of the task. -/
theorem sent_checkpoint {data : CheckpointInput} (hdata : rpc.request = .checkpoint data) :
    ∃ leaseExpiry v value, turn.phase = .checkpointing leaseExpiry v value ∧
      call.phase.taskResult? = some (.ok v) ∧ data.workflowId = runner.workflowId ∧
      data.position = runner.position ∧ data.value = GrpcAdapter.setValue wire value := by
  obtain ⟨-, hcases⟩ := sent_cases ha hs
  rcases hcases with ⟨data', k, hdata', -⟩ |
    ⟨data', leaseExpiry, v, value, hdata', hphase, hresult, hw, hp, hvalue⟩ |
    ⟨data', beforeExecution, err, hdata', -⟩
  · rw [hdata] at hdata'
    contradiction
  · rw [hdata, Request.checkpoint.injEq] at hdata'
    subst hdata'
    exact ⟨leaseExpiry, v, value, hphase, hresult, hw, hp, hvalue⟩
  · rw [hdata] at hdata'
    contradiction

/-- A release is sent when the task rejects. -/
theorem sent_release {data : ReleaseCheckpointInput}
    (hdata : rpc.request = .releaseCheckpoint data) :
    ∃ beforeExecution err, call.phase = .running beforeExecution ∧
      input = .taskSettled (.error err) ∧ data.workflowId = runner.workflowId ∧
      data.position = runner.position := by
  obtain ⟨-, hcases⟩ := sent_cases ha hs
  rcases hcases with ⟨data', k, hdata', -⟩ | ⟨data', leaseExpiry, v, value, hdata', -⟩ |
    ⟨data', beforeExecution, err, hdata', hphase, hinput, hw, hp⟩
  · rw [hdata] at hdata'
    contradiction
  · rw [hdata] at hdata'
    contradiction
  · rw [hdata, Request.releaseCheckpoint.injEq] at hdata'
    subst hdata'
    exact ⟨beforeExecution, err, hphase, hinput, hw, hp⟩

end Sent

theorem TaskEnd.of_eq_some {phase : Phase V} {e : TaskEnd V}
    (h : TaskEnd.of c runner phase input = some e) :
    ∃ beforeExecution result, phase = .running beforeExecution ∧ input = .taskSettled result ∧
      e = { call := c, workflowId := runner.workflowId, position := runner.position
            result := result } := by
  unfold TaskEnd.of at h
  split at h
  · next beforeExecution result =>
      exact ⟨beforeExecution, result, rfl, rfl, (Option.some.inj h).symm⟩
  · contradiction

/-- The task ends a turn adds to the history. -/
theorem mem_ended_take {e : TaskEnd V}
    (he : e ∈ (net.take wire c call runner input turn).ended) :
    e ∈ net.ended ∨ ∃ beforeExecution result, call.phase = .running beforeExecution ∧
      input = .taskSettled result ∧
      e = { call := c, workflowId := runner.workflowId, position := runner.position
            result := result } := by
  rcases List.mem_append.mp he with hnew | hold
  · exact .inr (TaskEnd.of_eq_some (Option.mem_toList.mp hnew))
  · exact .inl hold

theorem ended_subset_take : net.ended ⊆ (net.take wire c call runner input turn).ended :=
  fun _ he => List.mem_append_right _ he

/-- A call whose task has not ended has no release on its way. -/
theorem Shape.unreleased (h : net.Shape serializer wire) (hc : net.calls[c]? = some call)
    (hearly : call.phase.early = true) {n : Nat} {rpc : Rpc} {data : ReleaseCheckpointInput}
    (hn : net.rpcs[n]? = some rpc) (hdata : rpc.request = .releaseCheckpoint data) :
    rpc.call ≠ c := by
  obtain ⟨err, he⟩ := h.releases n rpc data hn hdata
  exact h.early c call hc hearly _ he

/-- A turn leaves the runner where it is, unless the call settles. -/
theorem live_take (h : net.Shape serializer wire) (hc : net.calls[c]? = some call)
    (hr : net.runners[call.runner]? = some runner)
    (ha : ExecuteCall.Advances call.execute runner call.phase input turn) {c' : Nat}
    {call' : Call V} (hc' : (net.take wire c call runner input turn).calls[c']? = some call')
    (hlive' : call'.phase.settled = false) :
    ∃ runner', (net.take wire c call runner input turn).runners[call'.runner]? = some runner' ∧
      runner'.workflowId = call'.workflowId ∧ runner'.position = call'.position := by
  rcases set_cases hc' with ⟨rfl, rfl⟩ | ⟨hne, hc'⟩
  · obtain ⟨runner', hr', hplace⟩ := h.live c' call hc ha.not_settled
    rw [hr, Option.some.injEq] at hr'
    subst hr'
    rcases ha.runner_eq with hrunner | ⟨-, v, hreturned⟩
    · refine ⟨runner, ?_, hplace⟩
      show (net.runners.set call.runner turn.runner)[call.runner]? = some runner
      rw [List.getElem?_set_self (List.getElem?_eq_some_iff.mp hr).1, hrunner]
    · rw [hreturned] at hlive'
      contradiction
  · obtain ⟨runner', hrunner', hplace⟩ := h.live c' call' hc' hlive'
    have hother : call.runner ≠ call'.runner := fun heq =>
      hne (h.alone c' c call' call hc' hc hlive' ha.not_settled heq.symm)
    refine ⟨runner', ?_, hplace⟩
    show (net.runners.set call.runner turn.runner)[call'.runner]? = some runner'
    rw [List.getElem?_set_ne hother]
    exact hrunner'

/-- A turn releases a call whose task is still running. -/
theorem early_of_sent_release
    (ha : ExecuteCall.Advances call.execute runner call.phase input turn) {rpc : Rpc}
    {data : ReleaseCheckpointInput}
    (hs : turn.call.map (fun call =>
      ({ call := c, request := GrpcAdapter.request wire call, reply := none } : Rpc)) =
        some rpc)
    (hdata : rpc.request = .releaseCheckpoint data) : rpc.call = c ∧
      call.phase.early = true := by
  obtain ⟨beforeExecution, err, hphase, -⟩ := sent_release ha hs hdata
  refine ⟨(sent_cases ha hs).1, ?_⟩
  rw [hphase]
  rfl

theorem releasedOnce_take (h : net.Shape serializer wire) (hc : net.calls[c]? = some call)
    (ha : ExecuteCall.Advances call.execute runner call.phase input turn) {n m : Nat}
    {rpc rpc' : Rpc} {data data' : ReleaseCheckpointInput}
    (hn : (net.take wire c call runner input turn).rpcs[n]? = some rpc)
    (hm : (net.take wire c call runner input turn).rpcs[m]? = some rpc')
    (hdata : rpc.request = .releaseCheckpoint data)
    (hdata' : rpc'.request = .releaseCheckpoint data')
    (hcall : rpc.call = rpc'.call) : n = m := by
  rcases append_cases hn with hn | ⟨rfl, hsent⟩
  · rcases append_cases hm with hm | ⟨rfl, hsent⟩
    · exact h.releasedOnce n m rpc rpc' data data' hn hm hdata hdata' hcall
    · obtain ⟨hcall', hearly⟩ := early_of_sent_release ha hsent hdata'
      exact absurd (hcall.trans hcall') (h.unreleased hc hearly hn hdata)
  · obtain ⟨hcall', hearly⟩ := early_of_sent_release ha hsent hdata
    rcases append_cases hm with hm | ⟨rfl, -⟩
    · exact absurd (hcall.symm.trans hcall') (h.unreleased hc hearly hm hdata')
    · rfl

theorem endedNodup_take (h : net.Shape serializer wire) (hc : net.calls[c]? = some call) :
    ((net.take wire c call runner input turn).ended.map TaskEnd.call).Nodup := by
  show (((TaskEnd.of c runner call.phase input).toList ++ net.ended).map TaskEnd.call).Nodup
  cases hend : TaskEnd.of c runner call.phase input with
  | none => exact h.endedNodup
  | some e =>
      obtain ⟨b, result, hphase, -, rfl⟩ := TaskEnd.of_eq_some hend
      refine List.nodup_cons.mpr ⟨fun hmem => ?_, h.endedNodup⟩
      obtain ⟨e, he, hcall⟩ := List.mem_map.mp hmem
      exact h.early c call hc (by rw [hphase]; rfl) e he hcall

/-- A turn keeps the shape. -/
theorem shape_take (h : net.Shape serializer wire) (hc : net.calls[c]? = some call)
    (hr : net.runners[call.runner]? = some runner)
    (ha : ExecuteCall.Advances call.execute runner call.phase input turn)
    (hx : serializer.Explains call.phase input) :
    (net.take wire c call runner input turn).Shape serializer wire := by
  have hlive := ha.not_settled
  obtain ⟨runner', hr', hworkflow, hposition⟩ := h.live c call hc hlive
  rw [hr, Option.some.injEq] at hr'
  subst hr'
  have hbytes {leaseExpiry : Int} {v : V} {value : TSerialized}
      (hphase : turn.phase = .checkpointing leaseExpiry v value) :
      value = serializer.serialize v := by
    rcases ha.checkpointing_cases hphase with ⟨beforeExecution, now, hp, hi⟩ | hp
    · rw [hp, hi] at hx
      exact hx
    · exact h.bytes c call leaseExpiry v value hc hp
  constructor
  case live => exact fun _ _ hc' hlive' => live_take h hc hr ha hc' hlive'
  case alone =>
    intro c₁ c₂ call₁ call₂ h₁ h₂ hlive₁ hlive₂ hrunner
    rcases set_cases h₁ with ⟨rfl, rfl⟩ | ⟨-, hold₁⟩
    · rcases set_cases h₂ with ⟨rfl, rfl⟩ | ⟨-, hold₂⟩
      · rfl
      · exact h.alone c₁ c₂ call call₂ hc hold₂ hlive hlive₂ hrunner
    · rcases set_cases h₂ with ⟨rfl, rfl⟩ | ⟨-, hold₂⟩
      · exact h.alone c₁ c₂ call₁ call hold₁ hc hlive₁ hlive hrunner
      · exact h.alone c₁ c₂ call₁ call₂ hold₁ hold₂ hlive₁ hlive₂ hrunner
  case sent =>
    intro n rpc hn
    rcases append_cases hn with hn | ⟨rfl, hsent⟩
    · obtain ⟨old, hold, hplace⟩ := h.sent n rpc hn
      obtain ⟨new, hnew, -, hw, hp⟩ := calls_set_some hc hold (net.awaited turn) turn.phase
      exact ⟨new, hnew, by rw [hw, hp]; exact hplace⟩
    · obtain ⟨new, hnew, -, hw, hp⟩ := calls_set_some hc hc (net.awaited turn) turn.phase
      obtain ⟨rfl, -⟩ := sent_cases ha hsent
      refine ⟨new, hnew, ?_⟩
      rw [hw, hp, ← hworkflow, ← hposition]
      exact leasePosition_sent ha hsent
  case checkpoints =>
    intro n rpc data hn hdata
    rcases append_cases hn with hn | ⟨rfl, hsent⟩
    · obtain ⟨v, he, hvalue⟩ := h.checkpoints n rpc data hn hdata
      exact ⟨v, ended_subset_take he, hvalue⟩
    · obtain ⟨rfl, -⟩ := sent_cases ha hsent
      obtain ⟨leaseExpiry, v, value, hphase, hresult, hdw, hdp, hvalue⟩ :=
        sent_checkpoint ha hsent hdata
      refine ⟨v, ended_subset_take ?_, by rw [hvalue, hbytes hphase]⟩
      rw [hdw, hdp, hworkflow, hposition]
      exact h.result _ call (.ok v) hc hresult
  case releases =>
    intro n rpc data hn hdata
    rcases append_cases hn with hn | ⟨rfl, hsent⟩
    · obtain ⟨err, he⟩ := h.releases n rpc data hn hdata
      exact ⟨err, ended_subset_take he⟩
    · obtain ⟨rfl, -⟩ := sent_cases ha hsent
      obtain ⟨beforeExecution, err, hphase, hinput, hdw, hdp⟩ := sent_release ha hsent hdata
      refine ⟨err, List.mem_append_left _ ?_⟩
      rw [hdw, hdp, hphase, hinput]
      exact List.mem_singleton_self _
  case releasedOnce =>
    exact fun _ _ _ _ _ _ hn hm hdata hdata' hcall =>
      releasedOnce_take h hc ha hn hm hdata hdata' hcall
  case leasing =>
    intro c' call' k hc' hk
    rcases set_cases hc' with ⟨rfl, rfl⟩ | ⟨-, hc'⟩
    · obtain ⟨rfl, -⟩ := ha.leasing_cases hk
      exact ⟨_, _, _, rfl, getElem?_sent_lease wire net.rpcs c' call.execute runner k, rfl, rfl⟩
    · obtain ⟨n, rpc, data, hawaiting, hn, hcall, hdata⟩ := h.leasing c' call' k hc' hk
      exact ⟨n, rpc, data, hawaiting, append_some hn, hcall, hdata⟩
  case early =>
    intro c' call' hc' hearly e he
    rcases mem_ended_take he with hold | ⟨beforeExecution, result, hphase, hinput, rfl⟩
    · rcases set_cases hc' with ⟨rfl, rfl⟩ | ⟨-, hc'⟩
      · exact h.early c' call hc (ha.early_of_early hearly).1 e hold
      · exact h.early c' call' hc' hearly e hold
    · rcases set_cases hc' with ⟨rfl, rfl⟩ | ⟨hne, -⟩
      · exact absurd hinput ((ha.early_of_early hearly).2 beforeExecution result hphase)
      · exact Ne.symm hne
  case result =>
    intro c' call' result hc' hresult
    rcases set_cases hc' with ⟨rfl, rfl⟩ | ⟨-, hc'⟩
    · rcases ha.taskResult_cases hresult with hold | ⟨beforeExecution, hphase, hinput⟩
      · exact ended_subset_take (h.result c' call result hc hold)
      · refine List.mem_append_left _ ?_
        rw [hphase, hinput, ← hworkflow, ← hposition]
        exact List.mem_singleton_self _
    · exact ended_subset_take (h.result c' call' result hc' hresult)
  case bytes =>
    intro c' call' leaseExpiry v value hc' hphase
    rcases set_cases hc' with ⟨rfl, rfl⟩ | ⟨-, hc'⟩
    · exact hbytes hphase
    · exact h.bytes c' call' leaseExpiry v value hc' hphase
  case endedCall =>
    intro e he
    have hold : ∃ old, net.calls[e.call]? = some old := by
      rcases mem_ended_take he with he | ⟨beforeExecution, result, -, -, rfl⟩
      · exact h.endedCall e he
      · exact ⟨call, hc⟩
    obtain ⟨old, hold⟩ := hold
    obtain ⟨new, hnew, -⟩ := calls_set_some hc hold (net.awaited turn) turn.phase
    exact ⟨new, hnew⟩
  case endedNodup => exact endedNodup_take h hc

end Take

/-- A call that is made asks for a lease. -/
theorem calls_addCall {net : Net V} {wire : Wire} {r : Nat} {runner : Runner}
    {execute : ExecuteCall} {c : Nat} {call : Call V}
    (hc : (net.addCall wire r runner execute).calls[c]? = some call) :
    net.calls[c]? = some call ∨ (c = net.calls.length ∧ call =
      { runner := r, workflowId := runner.workflowId, position := runner.position
        execute := execute, phase := .leasing 0, awaiting := some net.rpcs.length }) := by
  rcases append_cases (o := some _) hc with hc | ⟨rfl, hcall⟩
  · exact .inl hc
  · exact .inr ⟨rfl, (Option.some.inj hcall).symm⟩

/-- Its request is a lease request for the runner's position. -/
theorem rpcs_addCall {net : Net V} {wire : Wire} {r : Nat} {runner : Runner}
    {execute : ExecuteCall} {n : Nat} {rpc : Rpc}
    (hn : (net.addCall wire r runner execute).rpcs[n]? = some rpc) :
    net.rpcs[n]? = some rpc ∨ (rpc.call = net.calls.length ∧ rpc.reply = none ∧
      ∃ data, rpc.request = .leaseCheckpoint data ∧ data.workflowId = runner.workflowId ∧
        data.position = runner.position) := by
  rcases append_cases (o := some _) hn with hn | ⟨-, hrpc⟩
  · exact .inl hn
  · cases hrpc
    exact .inr ⟨rfl, rfl, _, rfl, rfl, rfl⟩

/-- A handled request keeps its sender and its content. -/
theorem answer_cases {net : Net V} {env : Env} {n m : Nat} {rpc rpc' : Rpc} {call : Call V}
    (hn : net.rpcs[n]? = some rpc) (h : (net.answer env n rpc call).rpcs[m]? = some rpc') :
    ∃ old, net.rpcs[m]? = some old ∧ rpc'.call = old.call ∧ rpc'.request = old.request ∧
      (m = n ∧ rpc'.reply = some (rpc.request.handle env net.world).1 ∨
        m ≠ n ∧ rpc'.reply = old.reply) := by
  rcases set_cases h with ⟨rfl, rfl⟩ | ⟨hne, hold⟩
  · exact ⟨rpc, hn, rfl, rfl, .inl ⟨rfl, rfl⟩⟩
  · exact ⟨rpc', hold, rfl, rfl, .inr ⟨hne, rfl⟩⟩

/-- A request that was sent keeps its place when one is handled. -/
theorem rpcs_answer {net : Net V} {env : Env} {n m : Nat} {rpc old : Rpc} {call : Call V}
    (hn : net.rpcs[n]? = some rpc) (hm : net.rpcs[m]? = some old) :
    ∃ new, (net.answer env n rpc call).rpcs[m]? = some new ∧ new.call = old.call ∧
      new.request = old.request ∧ (old.reply.isSome = true → new.reply.isSome = true) := by
  by_cases hmn : n = m
  · subst hmn
    rw [hn, Option.some.injEq] at hm
    subst hm
    exact ⟨_, List.getElem?_set_self (List.getElem?_eq_some_iff.mp hn).1, rfl,
      rfl, fun _ => rfl⟩
  · refine ⟨old, ?_, rfl, rfl, id⟩
    show (net.rpcs.set n _)[m]? = some old
    rw [List.getElem?_set_ne hmn]
    exact hm

section Shape

variable {serializer : Serializer V} {wire : Wire} {net net' : Net V} {l : NetLabel V}

/-- The shape is about the workers alone. -/
theorem Shape.of_world (h : net.Shape serializer wire) (w : World) (served : List Served) :
    ({ net with world := w, served := served } : Net V).Shape serializer wire :=
  ⟨h.live, h.alone, h.sent, h.checkpoints, h.releases, h.releasedOnce, h.leasing,
    h.early, h.result, h.bytes, h.endedCall, h.endedNodup⟩

theorem shape_answer (h : net.Shape serializer wire) {env : Env} {n : Nat} {rpc : Rpc}
    {call : Call V} (hn : net.rpcs[n]? = some rpc) :
    (net.answer env n rpc call).Shape serializer wire := by
  constructor
  case live => exact h.live
  case alone => exact h.alone
  case early => exact h.early
  case result => exact h.result
  case bytes => exact h.bytes
  case endedCall => exact h.endedCall
  case endedNodup => exact h.endedNodup
  case sent =>
    intro m rpc' hm
    obtain ⟨old, hold, hcall, hrequest, -⟩ := answer_cases hn hm
    rw [hcall, hrequest]
    exact h.sent m old hold
  case checkpoints =>
    intro m rpc' data hm hdata
    obtain ⟨old, hold, hcall, hrequest, -⟩ := answer_cases hn hm
    rw [hcall]
    exact h.checkpoints m old data hold (hrequest ▸ hdata)
  case releases =>
    intro m rpc' data hm hdata
    obtain ⟨old, hold, hcall, hrequest, -⟩ := answer_cases hn hm
    rw [hcall]
    exact h.releases m old data hold (hrequest ▸ hdata)
  case releasedOnce =>
    intro m m' rpc₁ rpc₂ data data' hm hm' hdata hdata' hcall
    obtain ⟨old₁, hold₁, hcall₁, hrequest₁, -⟩ := answer_cases hn hm
    obtain ⟨old₂, hold₂, hcall₂, hrequest₂, -⟩ := answer_cases hn hm'
    rw [hcall₁, hcall₂] at hcall
    exact h.releasedOnce m m' old₁ old₂ data data' hold₁ hold₂ (hrequest₁ ▸ hdata)
      (hrequest₂ ▸ hdata') hcall
  case leasing =>
    intro c call' k hc hk
    obtain ⟨m, old, data, hawaiting, hold, hcall, hdata⟩ := h.leasing c call' k hc hk
    obtain ⟨new, hnew, hcall', hrequest, -⟩ := rpcs_answer hn hold
    exact ⟨m, new, data, hawaiting, hnew, hcall'.trans hcall, hrequest.trans hdata⟩

theorem shape_addRunner (h : net.Shape serializer wire) (runner : Runner) :
    (net.addRunner runner).Shape serializer wire := by
  constructor
  case live =>
    intro c call hc hlive
    obtain ⟨runner', hr, hplace⟩ := h.live c call hc hlive
    exact ⟨runner', append_some hr, hplace⟩
  case alone => exact h.alone
  case sent => exact h.sent
  case checkpoints => exact h.checkpoints
  case releases => exact h.releases
  case releasedOnce => exact h.releasedOnce
  case leasing => exact h.leasing
  case early => exact h.early
  case result => exact h.result
  case bytes => exact h.bytes
  case endedCall => exact h.endedCall
  case endedNodup => exact h.endedNodup

/-- A call made while no other of its runner is going on. -/
theorem shape_addCall (h : net.Shape serializer wire) {r : Nat} {runner : Runner}
    (hr : net.runners[r]? = some runner) (execute : ExecuteCall)
    (hidle : ∀ call ∈ net.calls, call.runner = r → call.phase.settled = true) :
    (net.addCall wire r runner execute).Shape serializer wire := by
  constructor
  case live =>
    intro c call hc hlive
    rcases calls_addCall hc with hc | ⟨-, rfl⟩
    · exact h.live c call hc hlive
    · exact ⟨runner, hr, rfl, rfl⟩
  case alone =>
    intro c₁ c₂ call₁ call₂ h₁ h₂ hlive₁ hlive₂ hrunner
    have hbusy {c : Nat} {call : Call V} (hc : net.calls[c]? = some call)
        (hlive : call.phase.settled = false) : call.runner ≠ r := by
      intro heq
      rw [hidle call (List.mem_of_getElem? hc) heq] at hlive
      contradiction
    rcases calls_addCall h₁ with hold₁ | ⟨rfl, rfl⟩
    · rcases calls_addCall h₂ with hold₂ | ⟨rfl, rfl⟩
      · exact h.alone c₁ c₂ call₁ call₂ hold₁ hold₂ hlive₁ hlive₂ hrunner
      · exact absurd hrunner (hbusy hold₁ hlive₁)
    · rcases calls_addCall h₂ with hold₂ | ⟨rfl, -⟩
      · exact absurd hrunner.symm (hbusy hold₂ hlive₂)
      · rfl
  case sent =>
    intro n rpc hn
    rcases rpcs_addCall hn with hn | ⟨hcall, -, data, hdata, hw, hp⟩
    · obtain ⟨call, hc, hplace⟩ := h.sent n rpc hn
      exact ⟨call, append_some hc, hplace⟩
    · refine ⟨{ runner := r, workflowId := runner.workflowId, position := runner.position
                execute := execute, phase := .leasing 0
                awaiting := some net.rpcs.length }, ?_, ?_⟩
      · rw [hcall]
        exact List.getElem?_concat_length
      · rw [hdata, ← hw, ← hp]
        rfl
  case checkpoints =>
    intro n rpc data hn hdata
    rcases rpcs_addCall hn with hn | ⟨-, -, data', hdata', -⟩
    · exact h.checkpoints n rpc data hn hdata
    · rw [hdata] at hdata'
      contradiction
  case releases =>
    intro n rpc data hn hdata
    rcases rpcs_addCall hn with hn | ⟨-, -, data', hdata', -⟩
    · exact h.releases n rpc data hn hdata
    · rw [hdata] at hdata'
      contradiction
  case releasedOnce =>
    intro n m rpc rpc' data data' hn hm hdata hdata' hcall
    rcases rpcs_addCall hn with hn | ⟨-, -, data₁, hdata₁, -⟩
    · rcases rpcs_addCall hm with hm | ⟨-, -, data₂, hdata₂, -⟩
      · exact h.releasedOnce n m rpc rpc' data data' hn hm hdata hdata' hcall
      · rw [hdata'] at hdata₂
        contradiction
    · rw [hdata] at hdata₁
      contradiction
  case leasing =>
    intro c call k hc hk
    rcases calls_addCall hc with hc | ⟨rfl, rfl⟩
    · obtain ⟨n, rpc, data, hawaiting, hn, hcall, hdata⟩ := h.leasing c call k hc hk
      exact ⟨n, rpc, data, hawaiting, append_some hn, hcall, hdata⟩
    · exact ⟨_, _, _, rfl, getElem?_sent_lease wire net.rpcs _ execute runner 0, rfl, rfl⟩
  case early =>
    intro c call hc hearly e he
    rcases calls_addCall hc with hc | ⟨rfl, -⟩
    · exact h.early c call hc hearly e he
    · obtain ⟨old, hold⟩ := h.endedCall e he
      exact Nat.ne_of_lt (List.getElem?_eq_some_iff.mp hold).1
  case result =>
    intro c call result hc hresult
    rcases calls_addCall hc with hc | ⟨-, rfl⟩
    · exact h.result c call result hc hresult
    · contradiction
  case bytes =>
    intro c call leaseExpiry v value hc hphase
    rcases calls_addCall hc with hc | ⟨-, rfl⟩
    · exact h.bytes c call leaseExpiry v value hc hphase
    · contradiction
  case endedCall =>
    intro e he
    obtain ⟨call, hc⟩ := h.endedCall e he
    exact ⟨call, append_some hc⟩
  case endedNodup => exact h.endedNodup

/-- What a guarded worker's input may be. -/
theorem explains_of_guarded {c : Nat} {call : Call V} {input : Input V}
    (hg : net.Guarded serializer l) (hc : net.calls[c]? = some call)
    (hi : Prompts net c call l input) : serializer.Explains call.phase input := by
  cases hi with
  | delivered ho => cases call.phase <;> trivial
  | failed ha => cases call.phase <;> trivial
  | resumed ha => exact hg call hc

/-- Every guarded step keeps the shape. -/
theorem shape_step {evictable : CachedLease → Int → Bool}
    (hs : Stepped evictable wire net l net') (hg : net.Guarded serializer l)
    (h : net.Shape serializer wire) :
    net'.Shape serializer wire := by
  cases hs with
  | started hf ht => exact shape_addRunner (h.of_world _ _) _
  | called hr => exact shape_addCall h hr _ hg
  | answered hf hn hc hp => exact shape_answer h hn
  | turned hc hr hi ht =>
      exact shape_take h hc hr (ExecuteCall.resume_cases ht) (explains_of_guarded hg hc hi)
  | served hf hp => exact h.of_world _ _
  | ticked => exact h.of_world _ _
  | evicted hc he => exact h.of_world _ _

end Shape

/-! ## The histories -/

/-- A checkpoint or release of the call was handled. -/
def Settled (net : Net V) (c : Nat) : Prop :=
  ∃ s ∈ net.served, s.sender.map Sender.call = some c ∧ s.handled.request.endsLease = true

instance (net : Net V) (c : Nat) : Decidable (net.Settled c) :=
  inferInstanceAs (Decidable (∃ s ∈ net.served, _))

/-- A lease request of the call was granted. -/
def Granted (net : Net V) (c : Nat) (workflowId : String) (position : Int) : Prop :=
  ∃ s ∈ net.served, s.sender.map Sender.call = some c ∧
    ∃ token lease, s.handled.grant workflowId position = some (token, lease)

/-- How replies and tasks hang together with what the server handled. -/
structure Record (net : Net V) : Prop where
  /-- A handled request was sent, and has its reply. -/
  served : ∀ s ∈ net.served, ∀ sender, s.sender = some sender →
    ∃ (n : Nat) (rpc : Rpc), net.rpcs[n]? = some rpc ∧ rpc.call = sender.call ∧
      rpc.request = s.handled.request ∧ rpc.reply.isSome = true
  /-- A reply was given by the server. -/
  replied : ∀ (n : Nat) (rpc : Rpc) reply, net.rpcs[n]? = some rpc → rpc.reply = some reply →
    ∃ s ∈ net.served, s.sender.map Sender.call = some rpc.call ∧
      s.handled.request = rpc.request ∧ s.handled.reply = reply
  /-- A lease of somebody else has time left. -/
  remaining : ∀ (n : Nat) (rpc : Rpc) data r, net.rpcs[n]? = some rpc →
    rpc.request = .leaseCheckpoint data →
    rpc.reply = some (.ok (.leaseCheckpoint { response := some (.RemainingLeaseTimeout r) })) →
      r ≠ 0
  /-- A task runs under a lease. -/
  running : ∀ (c : Nat) (call : Call V) now, net.calls[c]? = some call →
    call.phase = .running now →
    net.Granted c call.workflowId call.position
  ended : ∀ e ∈ net.ended, net.Granted e.call e.workflowId e.position

theorem record_initial {net : Net V} (h : net.initial) : net.Record := by
  obtain ⟨now, -, rfl⟩ := h
  constructor <;> simp

section Record

variable {serializer : Serializer V} {wire : Wire} {net net' : Net V} {l : NetLabel V}

/-- A call asks for its lease: the reply it gets is one to its lease request. -/
theorem lease_outcome (h : net.Shape serializer wire) {c : Nat} {call : Call V} {k : Nat}
    (hc : net.calls[c]? = some call) (hk : call.phase = .leasing k) {input : Input V}
    (hi : Prompts net c call l input) {value : Option TSerialized}
    {remaining : Option Int} {now : Int}
    (hinput : input = .reply (.ok (.leaseCheckpoint value remaining)) now) :
    ∃ (n : Nat) (rpc : Rpc) (data : _) (output : _), net.rpcs[n]? = some rpc ∧ rpc.call = c ∧
      rpc.request = .leaseCheckpoint data ∧ data.workflowId = call.workflowId ∧
      data.position = call.position ∧ rpc.reply = some (.ok (.leaseCheckpoint output)) ∧
      GrpcAdapter.leaseReply output = .leaseCheckpoint value remaining := by
  obtain ⟨n, rpc, data, hawaiting, hn, hcall, hdata⟩ := h.leasing c call k hc hk
  obtain ⟨call', hc', hplace⟩ := h.sent n rpc hn
  rw [hcall, hc, Option.some.injEq] at hc'
  subst hc'
  rw [hdata, Request.leasePosition, Option.some.injEq, Prod.mk.injEq] at hplace
  cases hi with
  | failed ha => cases hinput
  | resumed ha =>
      rw [hawaiting] at ha
      contradiction
  | delivered ho =>
      cases hinput
      simp only [outcome, hawaiting, hn, Option.bind_eq_some_iff] at ho
      obtain ⟨reply, hreply, hsettle⟩ := ho
      obtain ⟨output, rfl, houtput⟩ := GrpcAdapter.settle_lease hsettle
      exact ⟨n, rpc, data, output, hn, hcall, hdata, hplace.1, hplace.2, hreply, houtput⟩

theorem Granted.mono {c : Nat} {workflowId : String} {position : Int}
    (h : net.Granted c workflowId position) (hs : net.served ⊆ net'.served) :
    net'.Granted c workflowId position := by
  obtain ⟨s, hmem, hsender, hgrant⟩ := h
  exact ⟨s, hs hmem, hsender, hgrant⟩

/-- A request from elsewhere is no call's. -/
theorem record_serve (h : net.Record) (env : Env) (request : Request) :
    (net.serve env none request).Record := by
  have hsub : net.served ⊆ (net.serve env none request).served := List.subset_cons_self _ _
  constructor
  case served =>
    intro s hs sender hsender
    rcases List.mem_cons.mp hs with rfl | hs
    · contradiction
    · exact h.served s hs sender hsender
  case replied =>
    intro n rpc reply hn hreply
    obtain ⟨s, hs, hrest⟩ := h.replied n rpc reply hn hreply
    exact ⟨s, hsub hs, hrest⟩
  case remaining => exact h.remaining
  case running =>
    intro c call now hc hphase
    exact (h.running c call now hc hphase).mono hsub
  case ended =>
    intro e he
    exact (h.ended e he).mono hsub

theorem record_answer (h : net.Record) {env : Env} (hf : env.fault = .none)
    {n : Nat} {rpc : Rpc} {call : Call V}
    (hn : net.rpcs[n]? = some rpc) : (net.answer env n rpc call).Record := by
  have hsub : net.served ⊆ (net.answer env n rpc call).served := List.subset_cons_self _ _
  have hself : (net.answer env n rpc call).rpcs[n]? =
      some { rpc with reply := some (rpc.request.handle env net.world).1 } :=
    List.getElem?_set_self (List.getElem?_eq_some_iff.mp hn).1
  constructor
  case served =>
    intro s hs sender hsender
    rcases List.mem_cons.mp hs with rfl | hs
    · cases hsender
      exact ⟨n, _, hself, rfl, rfl, rfl⟩
    · obtain ⟨m, old, hm, hcall, hrequest, hreply⟩ := h.served s hs sender hsender
      obtain ⟨new, hnew, hcall', hrequest', hkept⟩ := rpcs_answer hn hm
      exact ⟨m, new, hnew, hcall'.trans hcall, hrequest'.trans hrequest, hkept hreply⟩
  case replied =>
    intro m rpc' reply hm hreply
    obtain ⟨old, hold, hcall, hrequest, ⟨rfl, hnew⟩ | ⟨-, hkept⟩⟩ := answer_cases hn hm
    · rw [hn, Option.some.injEq] at hold
      subst hold
      rw [hnew, Option.some.injEq] at hreply
      exact ⟨_, List.mem_cons_self, congrArg some hcall.symm, hrequest.symm, hreply⟩
    · obtain ⟨s, hs, hsender, hrequest', hreply'⟩ := h.replied m old reply hold (hkept ▸ hreply)
      exact ⟨s, hsub hs, hcall ▸ hsender, hrequest ▸ hrequest', hreply'⟩
  case remaining =>
    intro m rpc' data r hm hdata hreply
    obtain ⟨old, hold, hcall, hrequest, ⟨rfl, hnew⟩ | ⟨-, hkept⟩⟩ := answer_cases hn hm
    · rw [hn, Option.some.injEq] at hold
      subst hold
      rw [hnew, ← hrequest, hdata, Option.some.injEq] at hreply
      exact Int.ne_of_gt (handle_leaseCheckpoint_of_remaining hf hreply)
    · exact h.remaining m old data r hold (hrequest ▸ hdata) (hkept ▸ hreply)
  case running =>
    intro c call' now hc hphase
    exact (h.running c call' now hc hphase).mono hsub
  case ended =>
    intro e he
    exact (h.ended e he).mono hsub

/-- A task starts when its lease was granted. -/
theorem granted_of_running (h : net.Record) (hshape : net.Shape serializer wire) {c : Nat}
    {call : Call V} {runner : Runner} {input : Input V} {turn : Turn V}
    (hc : net.calls[c]? = some call) (hi : Prompts net c call l input)
    (ha : ExecuteCall.Advances call.execute runner call.phase input turn) {now : Int}
    (hphase : turn.phase = .running now) : net.Granted c call.workflowId call.position := by
  obtain ⟨k, value, remaining, hk, hinput, hv, hr⟩ := ha.running_cases hphase
  obtain ⟨n, rpc, data, output, hn, hcall, hdata, hw, hp, hreply, houtput⟩ :=
    lease_outcome hshape hc hk hi hinput
  rcases GrpcAdapter.leaseReply_granted houtput hv hr with hnone | hzero
  · obtain ⟨s, hs, hsender, hrequest, hreply'⟩ := h.replied n rpc _ hn hreply
    have hgranted : s.handled.reply = granted := by
      rw [hreply', granted, ← hnone]
    refine ⟨s, hs, by rw [hsender, hcall], ?_⟩
    simp [Handled.grant, hrequest, hdata, hw, hp, hgranted]
  · have hreply' : rpc.reply =
        some (.ok (.leaseCheckpoint { response := some (.RemainingLeaseTimeout 0) })) := by
      rw [hreply, ← hzero]
    exact absurd rfl (h.remaining n rpc data 0 hn hdata hreply')

theorem record_take (h : net.Record) (hshape : net.Shape serializer wire) {c : Nat}
    {call : Call V} {runner : Runner} {input : Input V} {turn : Turn V}
    (hc : net.calls[c]? = some call)
    (hr : net.runners[call.runner]? = some runner) (hi : Prompts net c call l input)
    (ha : ExecuteCall.Advances call.execute runner call.phase input turn) :
    (net.take wire c call runner input turn).Record := by
  constructor
  case served =>
    intro s hs sender hsender
    obtain ⟨n, rpc, hn, hrest⟩ := h.served s hs sender hsender
    exact ⟨n, rpc, append_some hn, hrest⟩
  case replied =>
    intro n rpc reply hn hreply
    rcases append_cases hn with hn | ⟨-, hsent⟩
    · exact h.replied n rpc reply hn hreply
    · obtain ⟨adapterCall, -, rfl⟩ := Option.map_eq_some_iff.mp hsent
      contradiction
  case remaining =>
    intro n rpc data r hn hdata hreply
    rcases append_cases hn with hn | ⟨-, hsent⟩
    · exact h.remaining n rpc data r hn hdata hreply
    · obtain ⟨adapterCall, -, rfl⟩ := Option.map_eq_some_iff.mp hsent
      contradiction
  case running =>
    intro c' call' now hc' hphase
    rcases set_cases hc' with ⟨rfl, rfl⟩ | ⟨-, hc'⟩
    · have hgranted : net.Granted c' call.workflowId call.position :=
        granted_of_running h hshape hc hi ha hphase
      exact hgranted
    · exact h.running c' call' now hc' hphase
  case ended =>
    intro e he
    rcases mem_ended_take he with he | ⟨now, result, hphase, -, rfl⟩
    · exact h.ended e he
    · obtain ⟨runner', hr', hworkflow, hposition⟩ := hshape.live c call hc ha.not_settled
      rw [hr, Option.some.injEq] at hr'
      subst hr'
      rw [hworkflow, hposition]
      exact h.running c call now hc hphase

/-- Every guarded step keeps the record. -/
theorem record_step {evictable : CachedLease → Int → Bool}
    (hs : Stepped evictable wire net l net') (hshape : net.Shape serializer wire)
    (h : net.Record) : net'.Record := by
  cases hs with
  | @started workflowId name _ env _ hf ht =>
      have hserved :=
        record_serve h env (GrpcAdapter.request wire (.startWorkflow workflowId name))
      exact ⟨hserved.served, hserved.replied, hserved.remaining, hserved.running, hserved.ended⟩
  | served hf hp => exact record_serve h _ _
  | ticked => exact ⟨h.served, h.replied, h.remaining, h.running, h.ended⟩
  | evicted hc he => exact ⟨h.served, h.replied, h.remaining, h.running, h.ended⟩
  | answered hf hn hc hp => exact record_answer h hf hn
  | turned hc hr hi ht => exact record_take h hshape hc hr hi (ExecuteCall.resume_cases ht)
  | called hr =>
      constructor
      case served =>
        intro s hs sender hsender
        obtain ⟨n, rpc, hn, hrest⟩ := h.served s hs sender hsender
        exact ⟨n, rpc, append_some hn, hrest⟩
      case replied =>
        intro n rpc reply hn hreply
        rcases rpcs_addCall hn with hn | ⟨-, hnone, -⟩
        · exact h.replied n rpc reply hn hreply
        · rw [hnone] at hreply
          contradiction
      case remaining =>
        intro n rpc data r hn hdata hreply
        rcases rpcs_addCall hn with hn | ⟨-, hnone, -⟩
        · exact h.remaining n rpc data r hn hdata hreply
        · rw [hnone] at hreply
          contradiction
      case running =>
        intro c call now hc hphase
        rcases calls_addCall hc with hc | ⟨-, rfl⟩
        · exact h.running c call now hc hphase
        · contradiction
      case ended => exact h.ended

end Record

end Net

end IdempotentTransformer
