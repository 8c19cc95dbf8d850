import IdempotentTransformer.Workers

/-!
# IdempotentTransformer.Requests

What the calls of the workers and the requests they sent say about each
other in every run of a network, however many calls a runner is used for at
a time.

* `Asked` — a call that asks for a lease waits for its own lease request, and
  one whose task has not ended has sent nothing that ends a lease
  (`asked_step`);
* `granted_of_reply` — a task starts on a lease request that was granted.
-/

namespace IdempotentTransformer

open Library

namespace Net

variable {V : Type}

/-- How calls and requests hang together. -/
structure Asked (net : Net V) : Prop where
  /-- A request was sent by a call. -/
  sent : ∀ (n : Nat) (rpc : Rpc), net.rpcs[n]? = some rpc →
    ∃ call, net.calls[rpc.call]? = some call
  /-- A call is about its runner's workflow. -/
  runners : ∀ (c : Nat) (call : Call V), net.calls[c]? = some call →
    ∃ runner, net.runners[call.runner]? = some runner ∧ runner.workflowId = call.workflowId
  /-- A call waits for a request of its own. -/
  awaiting : ∀ (c : Nat) (call : Call V) (n : Nat), net.calls[c]? = some call →
    call.awaiting = some n → ∃ rpc, net.rpcs[n]? = some rpc ∧ rpc.call = c
  /-- A call that asks for a lease waits for its lease request. -/
  leasing : ∀ (c : Nat) (call : Call V) k, net.calls[c]? = some call → call.phase = .leasing k →
    ∃ (n : Nat) (rpc : Rpc) (data : _), call.awaiting = some n ∧ net.rpcs[n]? = some rpc ∧
      rpc.call = c ∧ rpc.request = .leaseCheckpoint data ∧ data.workflowId = call.workflowId ∧
      data.leaseTimeout = call.execute.options.leaseMilliseconds ∧
      data.idempotencyKey = call.execute.idempotencyKey
  /-- A remaining timeout sent is positive. -/
  remaining : ∀ (n : Nat) (rpc : Rpc), net.rpcs[n]? = some rpc → rpc.reply ≠
    some (.ok (.leaseCheckpoint { response := some (.RemainingLeaseTimeout 0) }))
  /-- Before its task has ended a call sends no checkpoint and no release. -/
  early : ∀ (c : Nat) (call : Call V), net.calls[c]? = some call → call.phase.early = true →
    ∀ (n : Nat) (rpc : Rpc), net.rpcs[n]? = some rpc → rpc.call = c →
      rpc.request.endsLease = false

theorem asked_initial {net : Net V} (h : net.initial) : net.Asked := by
  obtain ⟨now, -, rfl⟩ := h
  constructor <;> simp

variable {net net' : Net V}

/-- It is about the workers alone. -/
theorem Asked.of_world (h : net.Asked) (w : World) (served : List Served) :
    ({ net with world := w, served := served } : Net V).Asked :=
  ⟨h.sent, h.runners, h.awaiting, h.leasing, h.remaining, h.early⟩

theorem asked_addRunner (h : net.Asked) (runner : Runner) : (net.addRunner runner).Asked := by
  constructor
  case sent => exact h.sent
  case runners =>
    intro c call hc
    obtain ⟨runner', hr, hw⟩ := h.runners c call hc
    exact ⟨runner', append_some hr, hw⟩
  case awaiting => exact h.awaiting
  case leasing => exact h.leasing
  case remaining => exact h.remaining
  case early => exact h.early

theorem asked_addCall (h : net.Asked) {wire : Wire} {r : Nat} {runner : Runner}
    (hr : net.runners[r]? = some runner) (execute : ExecuteCall) :
    (net.addCall wire r runner execute).Asked := by
  constructor
  case sent =>
    intro n rpc hn
    rcases rpcs_addCall hn with hn | ⟨hcall, -⟩
    · obtain ⟨call, hc⟩ := h.sent n rpc hn
      exact ⟨call, append_some hc⟩
    · rw [hcall]
      exact ⟨_, List.getElem?_concat_length⟩
  case runners =>
    intro c call hc
    rcases calls_addCall hc with hc | ⟨-, rfl⟩
    · exact h.runners c call hc
    · exact ⟨runner, hr, rfl⟩
  case awaiting =>
    intro c call n hc hawaiting
    rcases calls_addCall hc with hc | ⟨rfl, rfl⟩
    · obtain ⟨rpc, hn, hcall⟩ := h.awaiting c call n hc hawaiting
      exact ⟨rpc, append_some hn, hcall⟩
    · cases hawaiting
      exact ⟨_, List.getElem?_concat_length, rfl⟩
  case leasing =>
    intro c call k hc hk
    rcases calls_addCall hc with hc | ⟨rfl, rfl⟩
    · obtain ⟨n, rpc, data, hawaiting, hn, hrest⟩ := h.leasing c call k hc hk
      exact ⟨n, rpc, data, hawaiting, append_some hn, hrest⟩
    · exact ⟨_, _, _, rfl, List.getElem?_concat_length, rfl, rfl, rfl, rfl, rfl⟩
  case remaining =>
    intro n rpc hn
    rcases rpcs_addCall hn with hn | ⟨-, hnone, -⟩
    · exact h.remaining n rpc hn
    · rw [hnone]
      exact nofun
  case early =>
    intro c call hc hearly n rpc hn hcall
    rcases rpcs_addCall hn with hn | ⟨-, -, data, hdata, -⟩
    · rcases calls_addCall hc with hc | ⟨rfl, -⟩
      · exact h.early c call hc hearly n rpc hn hcall
      · obtain ⟨old, hold⟩ := h.sent n rpc hn
        rw [hcall] at hold
        exact absurd (List.getElem?_eq_some_iff.mp hold).1 (lt_irrefl _)
    · rw [hdata]
      rfl

theorem asked_answer (h : net.Asked) {env : Env} (hf : env.fault = .none) {n : Nat} {rpc : Rpc}
    {call : Call V} (hn : net.rpcs[n]? = some rpc) : (net.answer env n rpc call).Asked := by
  constructor
  case sent =>
    intro m rpc' hm
    obtain ⟨old, hold, hcall, -⟩ := answer_cases hn hm
    rw [hcall]
    exact h.sent m old hold
  case runners => exact h.runners
  case awaiting =>
    intro c call' m hc hawaiting
    obtain ⟨old, hold, hcall⟩ := h.awaiting c call' m hc hawaiting
    obtain ⟨new, hnew, hcall', -⟩ := rpcs_answer hn hold
    exact ⟨new, hnew, hcall'.trans hcall⟩
  case leasing =>
    intro c call' k hc hk
    obtain ⟨m, old, data, hawaiting, hold, hcall, hdata, hrest⟩ := h.leasing c call' k hc hk
    obtain ⟨new, hnew, hcall', hrequest, -⟩ := rpcs_answer hn hold
    exact ⟨m, new, data, hawaiting, hnew, hcall'.trans hcall, hrequest.trans hdata, hrest⟩
  case remaining =>
    intro m rpc' hm hreply
    obtain ⟨old, hold, -, -, ⟨rfl, hnew⟩ | ⟨-, hsame⟩⟩ := answer_cases hn hm
    · rw [hreply, Option.some.injEq] at hnew
      obtain ⟨data, hdata⟩ := exists_of_leaseCheckpoint hnew.symm
      rw [hdata] at hnew
      exact absurd (handle_leaseCheckpoint_of_remaining hf hnew.symm) (lt_irrefl 0)
    · exact h.remaining m old hold (hsame ▸ hreply)
  case early =>
    intro c call' hc hearly m rpc' hm hcall
    obtain ⟨old, hold, hcall', hrequest, -⟩ := answer_cases hn hm
    rw [hrequest]
    exact h.early c call' hc hearly m old hold (hcall'.symm.trans hcall)

section Take

variable {wire : Wire} {c : Nat} {call : Call V} {runner : Runner} {input : Input V}
  {turn : Turn V}

theorem asked_take (h : net.Asked) (hc : net.calls[c]? = some call)
    (hr : net.runners[call.runner]? = some runner)
    (ha : ExecuteCall.Advances call.execute runner call.phase input turn) :
    (net.take wire c call runner input turn).Asked := by
  constructor
  case sent =>
    intro n rpc hn
    have hold : ∃ old, net.calls[rpc.call]? = some old := by
      rcases append_cases hn with hn | ⟨-, hsent⟩
      · exact h.sent n rpc hn
      · rw [(sent_cases ha hsent).1]
        exact ⟨call, hc⟩
    obtain ⟨old, hold⟩ := hold
    obtain ⟨new, hnew, -⟩ := calls_set_some hc hold (net.awaited turn) turn.phase
    exact ⟨new, hnew⟩
  case runners =>
    intro c' call' hc'
    have hold : ∃ (old : Call V) (c₀ : Nat), net.calls[c₀]? = some old ∧
        call'.runner = old.runner ∧ call'.workflowId = old.workflowId := by
      rcases set_cases hc' with ⟨rfl, rfl⟩ | ⟨-, hc'⟩
      · exact ⟨call, _, hc, rfl, rfl⟩
      · exact ⟨call', c', hc', rfl, rfl⟩
    obtain ⟨old, c₀, hc₀, hrunner, hworkflow⟩ := hold
    obtain ⟨runner₀, hr₀, hw₀⟩ := h.runners c₀ old hc₀
    obtain ⟨new, hnew, hw⟩ := runners_take ha hr hr₀
    exact ⟨new, hrunner ▸ hnew, hw.trans (hw₀.trans hworkflow.symm)⟩
  case awaiting =>
    intro c' call' n hc' hawaiting
    rcases set_cases hc' with ⟨rfl, rfl⟩ | ⟨-, hc'⟩
    · obtain ⟨adapterCall, hcall, rfl⟩ := Option.map_eq_some_iff.mp hawaiting
      refine ⟨{ call := c', request := GrpcAdapter.request wire adapterCall, reply := none },
        ?_, rfl⟩
      simp [take, sent, hcall]
    · obtain ⟨rpc, hn, hcall⟩ := h.awaiting c' call' n hc' hawaiting
      exact ⟨rpc, append_some hn, hcall⟩
  case leasing =>
    intro c' call' k hc' hk
    rcases set_cases hc' with ⟨rfl, rfl⟩ | ⟨-, hc'⟩
    · obtain ⟨rfl, -⟩ := ha.leasing_cases hk
      obtain ⟨runner₀, hr₀, hw₀⟩ := h.runners c' call hc
      rw [hr, Option.some.injEq] at hr₀
      subst hr₀
      exact ⟨_, _, _, rfl, List.getElem?_concat_length, rfl, rfl, hw₀, rfl, rfl⟩
    · obtain ⟨n, rpc, data, hawaiting, hn, hrest⟩ := h.leasing c' call' k hc' hk
      exact ⟨n, rpc, data, hawaiting, append_some hn, hrest⟩
  case remaining =>
    intro n rpc hn
    rcases append_cases hn with hn | ⟨-, hsent⟩
    · exact h.remaining n rpc hn
    · obtain ⟨adapterCall, -, rfl⟩ := Option.map_eq_some_iff.mp hsent
      exact nofun
  case early =>
    intro c' call' hc' hearly n rpc hn hcall
    rcases set_cases hc' with ⟨rfl, rfl⟩ | ⟨hne, hc'⟩
    · have hbefore := ha.early_of_early hearly
      rcases append_cases hn with hn | ⟨-, hsent⟩
      · exact h.early c' call hc hbefore.1 n rpc hn hcall
      · rcases (sent_cases ha hsent).2 with ⟨data, k, hdata, -⟩ |
          ⟨data, leaseExpiry, v, value, -, hphase, -⟩ |
          ⟨data, beforeExecution, err, -, hphase, hinput, -⟩
        · rw [hdata]
          rfl
        · rw [hphase] at hearly
          contradiction
        · exact absurd hinput (hbefore.2 beforeExecution _ hphase)
    · rcases append_cases hn with hn | ⟨-, hsent⟩
      · exact h.early c' call' hc' hearly n rpc hn hcall
      · exact absurd (hcall.symm.trans (sent_cases ha hsent).1) hne

end Take

/-- **Every step keeps it.** -/
theorem asked_step {evictable : CachedLease → Int → Bool} {wire : Wire} {l : NetLabel V}
    (hs : Stepped evictable wire net l net') (h : net.Asked) : net'.Asked := by
  cases hs with
  | started hf ht => exact asked_addRunner (h.of_world _ _) _
  | called hr => exact asked_addCall h hr _
  | answered hf hn hc hp => exact asked_answer h hf hn
  | turned hc hr hi ht => exact asked_take h hc hr (ExecuteCall.resume_cases ht)
  | served hf hp => exact h.of_world _ _
  | ticked => exact h.of_world _ _
  | evicted hc he => exact h.of_world _ _

/-- **A task starts on a granted lease request**, the one its call waited for. -/
theorem granted_of_reply (h : net.Asked) {c : Nat} {call : Call V}
    (hc : net.calls[c]? = some call) {k : Nat} (hk : call.phase = .leasing k) {l : NetLabel V}
    {input : Input V} (hi : Prompts net c call l input) {value : Option TSerialized}
    {remaining : Option Int} {now : Int}
    (hinput : input = .reply (.ok (.leaseCheckpoint value remaining)) now)
    (hv : value.filter TSerialized.truthy = none) (hr : remaining.filter (· ≠ 0) = none) :
    l = .deliver c now ∧ ∃ (n : Nat) (data : _), call.awaiting = some n ∧
      net.rpcs[n]? =
        some { call := c, request := .leaseCheckpoint data, reply := some granted } ∧
      data.workflowId = call.workflowId ∧
      data.leaseTimeout = call.execute.options.leaseMilliseconds ∧
      data.idempotencyKey = call.execute.idempotencyKey := by
  obtain ⟨n, rpc, data, hawaiting, hn, hcall, hdata, hrest⟩ := h.leasing c call k hc hk
  cases hi with
  | failed ha => cases hinput
  | resumed ha =>
      rw [hawaiting] at ha
      contradiction
  | delivered ho =>
      cases hinput
      refine ⟨rfl, n, data, hawaiting, ?_, hrest⟩
      simp only [outcome, hawaiting, hn, Option.bind_eq_some_iff] at ho
      obtain ⟨reply, hreply, hsettle⟩ := ho
      obtain ⟨output, rfl, houtput⟩ := GrpcAdapter.settle_lease hsettle
      have hgranted : rpc.reply = some granted := by
        obtain ⟨response⟩ := output
        rcases GrpcAdapter.leaseReply_granted houtput hv hr with hnone | hzero
        · rw [hreply, granted, ← hnone]
        · refine absurd ?_ (h.remaining n rpc hn)
          rw [hreply, ← hzero]
      rw [hn, ← hcall, ← hdata, ← hgranted]

end Net

end IdempotentTransformer
