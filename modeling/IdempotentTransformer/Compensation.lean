import IdempotentTransformer.Returns

/-!
# IdempotentTransformer.Compensation

Compensation and persistence exclude each other, as far as they do.

Every value ever stored, and every value a lease reply ever carried, is the
result of some call: the one whose checkpoint request found no row
(`Provenance`).  So what matters is whether a call whose `onAbort.function` was
called can be such a one.  It can, in two ways, and in no other: its request is
handled after the call has given it up, or was handled before without the call
getting the reply (`Audit.Apart`).
-/

namespace IdempotentTransformer

open Library

/-! ## Who stores a value -/

/-- A checkpoint request that would be stored now: its position has no row, and
it is accepted. -/
def World.Inserts (w : World) : Request → Prop
  | .checkpoint data =>
      w.checkpoints data.workflowId data.position = none ∧
        ∃ stored ∈ w.fencingTokens data.workflowId, data.fencingToken < stored →
          ∀ leased ∈ w.leaseAt data.workflowId data.position, ¬ leased.Expired w.now
  | _ => False

instance (w : World) : (request : Request) → Decidable (w.Inserts request)
  | .checkpoint data =>
      inferInstanceAs (Decidable (_ ∧ ∃ stored ∈ w.fencingTokens data.workflowId, _ → _))
  | .workflowStart _ | .leaseCheckpoint _ | .completeWorkflow _ | .workflowStatus _
  | .releaseCheckpoint _ | .generateIdempotencyKey _ | .cleanUp => .isFalse id

/-- The request stored the value: there was no row before. -/
def Handled.StoresValue (h : Handled) (workflowId : String) (position : Int)
    (value : Bytes) : Prop :=
  h.before.checkpoints workflowId position = none ∧
    ∃ row, h.after.checkpoints workflowId position = some row ∧ row.value = some value

instance (h : Handled) (workflowId : String) (position : Int) (value : Bytes) :
    Decidable (h.StoresValue workflowId position value) :=
  inferInstanceAs
    (Decidable (_ ∧ ∃ row, h.after.checkpoints workflowId position = some row ∧ _))

section Handle

variable {env : Env} (hf : env.fault = .none) {w : World} {request : Request}
  {workflowId : String} {position : Int} {value : Bytes}

include hf

/-- A value is stored by a checkpoint request that inserts. -/
theorem inserts_of_stores
    (h : (Net.handledIn w env request).StoresValue workflowId position value) :
    w.Inserts request ∧ ∃ data, request = .checkpoint data := by
  obtain ⟨hnone, row, hrow, hvalue⟩ := h
  replace hrow : (request.handle env w).2.checkpoints workflowId position = some row := hrow
  replace hnone : w.checkpoints workflowId position = none := hnone
  have hpersisted : (request.handle env w).2.Persisted workflowId position :=
    ⟨row, hrow, by rw [hvalue]; simp⟩
  rcases persisted_cases hf hpersisted with ⟨old, hold, -⟩ | ⟨data, rfl, rfl, rfl⟩
  · rw [hnone] at hold
    contradiction
  · refine ⟨⟨hnone, ?_⟩, data, rfl⟩
    rw [handle_checkpoint_checkpoints hf] at hrow
    split at hrow
    · next hok =>
        obtain ⟨abort, hok⟩ := hok
        obtain ⟨stored, htoken, -, hlease⟩ := (handle_checkpoint_ok_iff hf w data abort).mp hok
        exact ⟨stored, htoken, hlease⟩
    · rw [hnone] at hrow
      contradiction

/-- A request that inserts stores its value. -/
theorem stores_of_inserts (h : w.Inserts request) :
    ∃ data, (Net.handledIn w env request).StoresValue data.workflowId data.position data.value ∧
      request = .checkpoint data := by
  cases request with
  | checkpoint data =>
      obtain ⟨hnone, stored, htoken, hlease⟩ := h
      have hok := (handle_checkpoint_ok_iff hf w data (decide (data.fencingToken < stored))).mpr
        ⟨stored, htoken, rfl, hlease⟩
      have hrow := handle_checkpoint_checkpoints hf w data
      rw [if_pos ⟨_, hok⟩, hnone] at hrow
      exact ⟨data, ⟨hnone, _, hrow, rfl⟩, rfl⟩
  | _ => exact absurd h id

end Handle

namespace Net

variable {V : Type}

/-- The result of the call was stored as the value of the position. -/
def StoredBy (net : Net V) (c : Nat) (workflowId : String) (position : Int)
    (value : Bytes) : Prop :=
  ∃ e ∈ net.served, (∃ sender ∈ e.sender, sender.call = c) ∧
    e.handled.StoresValue workflowId position value

/-- A checkpoint request of the call came to a position without a row and was
accepted. -/
def Landed (net : Net V) (c : Nat) : Prop :=
  ∃ e ∈ net.served, (∃ sender ∈ e.sender, sender.call = c) ∧
    e.handled.before.Inserts e.handled.request

instance (net : Net V) (c : Nat) : Decidable (net.Landed c) :=
  inferInstanceAs (Decidable (∃ e ∈ net.served, _ ∧ _))

instance (net : Net V) (c : Nat) (workflowId : String) (position : Int) (value : Bytes) :
    Decidable (net.StoredBy c workflowId position value) :=
  inferInstanceAs (Decidable (∃ e ∈ net.served, _ ∧ _))

theorem StoredBy.mono {net net' : Net V} {c : Nat} {workflowId : String} {position : Int}
    {value : Bytes} (h : net.StoredBy c workflowId position value)
    (hs : net.served ⊆ net'.served) : net'.StoredBy c workflowId position value := by
  obtain ⟨e, he, hrest⟩ := h
  exact ⟨e, hs he, hrest⟩

/-! ## Where values come from -/

/-- Every value is the result of some call. -/
structure Provenance (net : Net V) : Prop where
  handled : ∀ e ∈ net.served, ∃ env : Env, env.fault = .none ∧
    e.handled = handledIn e.handled.before env e.handled.request
  rows : ∀ workflowId position row value, net.world.checkpoints workflowId position = some row →
    row.value = some value → ∃ c, net.StoredBy c workflowId position value
  /-- Also of the values stored at any time before. -/
  worlds : ∀ e ∈ net.served, ∀ workflowId position row value,
    e.handled.after.checkpoints workflowId position = some row → row.value = some value →
    ∃ c, net.StoredBy c workflowId position value
  replies : ∀ (n : Nat) (rpc : Rpc) value, net.rpcs[n]? = some rpc →
    rpc.reply = some (.ok (.leaseCheckpoint { response := some (.CheckpointValue value) })) →
    ∃ data c, rpc.request = .leaseCheckpoint data ∧
      net.StoredBy c data.workflowId data.position value
  replaying : ∀ (c : Nat) (call : Call V) value k, net.calls[c]? = some call →
    call.phase = .deserializing value k → ∃ (n : Nat) (rpc : Rpc) (bytes : Bytes),
      net.rpcs[n]? = some rpc ∧ rpc.call = c ∧ value = .bytes bytes ∧
      rpc.reply = some (.ok (.leaseCheckpoint { response := some (.CheckpointValue bytes) }))

section Provenance

variable {evictable : CachedLease → Int → Bool} {wire : Wire} {net net' : Net V}
  {l : NetLabel V}

theorem provenance_initial (h : net.initial) : net.Provenance := by
  obtain ⟨now, -, rfl⟩ := h
  constructor <;> simp [World.empty]

/-- Another world with the same rows. -/
theorem Provenance.of_world (h : net.Provenance) {w : World}
    (hrows : w.checkpoints = net.world.checkpoints) :
    ({ net with world := w } : Net V).Provenance := by
  constructor
  case handled => exact h.handled
  case worlds => exact h.worlds
  case replies => exact h.replies
  case replaying => exact h.replaying
  case rows =>
    intro workflowId position row value hrow
    exact h.rows workflowId position row value (by rw [← hrows]; exact hrow)

/-- A value after a request was there before, or the request stored it. -/
theorem value_cases {env : Env} (hf : env.fault = .none) {w : World} {request : Request}
    {workflowId : String} {position : Int} {row : Checkpoint} {value : Bytes}
    (hrow : (request.handle env w).2.checkpoints workflowId position = some row)
    (hvalue : row.value = some value) :
    (∃ old, w.checkpoints workflowId position = some old ∧ old.value = some value) ∨
      (handledIn w env request).StoresValue workflowId position value := by
  by_cases hclean : request = .cleanUp
  · left
    subst hclean
    exact ⟨row, handle_cleanUp_row hf hrow, hvalue⟩
  · rcases handle_checkpoints_cases hf w hclean workflowId position with
      hsame | ⟨old, hold, hnew⟩ | ⟨hnone, -⟩
    · exact .inl ⟨row, hsame ▸ hrow, hvalue⟩
    · rw [hnew, Option.some.injEq] at hrow
      subst hrow
      exact .inl ⟨old, hold, hvalue⟩
    · exact .inr ⟨hnone, row, hrow, hvalue⟩

/-- Handling a request; a checkpoint has a sender. -/
theorem provenance_serve (h : net.Provenance) {env : Env} (hf : env.fault = .none)
    {request : Request} {sender : Option Sender}
    (hs : ∀ data, request = .checkpoint data → sender.isSome) :
    (net.serve env sender request).Provenance := by
  have hsub : net.served ⊆ (net.serve env sender request).served := List.subset_cons_self _ _
  have hafter : ∀ workflowId position row value,
      (request.handle env net.world).2.checkpoints workflowId position = some row →
      row.value = some value →
      ∃ c, (net.serve env sender request).StoredBy c workflowId position value := by
    intro workflowId position row value hrow hvalue
    rcases value_cases hf hrow hvalue with ⟨old, hold, hvalue⟩ | hstores
    · obtain ⟨c, hc⟩ := h.rows workflowId position old value hold hvalue
      exact ⟨c, hc.mono hsub⟩
    · obtain ⟨-, data, hdata⟩ := inserts_of_stores hf hstores
      obtain ⟨sender', hsender⟩ := Option.isSome_iff_exists.mp (hs data hdata)
      exact ⟨sender'.call, _, List.mem_cons_self, ⟨sender', hsender, rfl⟩, hstores⟩
  constructor
  case handled =>
    intro e he
    rcases List.mem_cons.mp he with rfl | he
    · exact ⟨env, hf, rfl⟩
    · exact h.handled e he
  case rows => exact hafter
  case worlds =>
    intro e he
    rcases List.mem_cons.mp he with rfl | he
    · exact hafter
    · intro workflowId position row value hrow hvalue
      obtain ⟨c, hc⟩ := h.worlds e he workflowId position row value hrow hvalue
      exact ⟨c, hc.mono hsub⟩
  case replies =>
    intro n rpc value hn hreply
    obtain ⟨data, c, hdata, hc⟩ := h.replies n rpc value hn hreply
    exact ⟨data, c, hdata, hc.mono hsub⟩
  case replaying => exact h.replaying

/-- Handling a request of a call: a value it is answered with was stored. -/
theorem provenance_answer (h : net.Provenance) {env : Env} (hf : env.fault = .none) {n : Nat}
    {rpc : Rpc} {call : Call V} (hn : net.rpcs[n]? = some rpc) (hp : rpc.reply = none) :
    (net.answer env n rpc call).Provenance := by
  have hserve :
    (net.serve env (some { call := rpc.call, runner := call.runner }) rpc.request).Provenance :=
    provenance_serve h hf fun _ _ => rfl
  constructor
  case handled => exact hserve.handled
  case rows => exact hserve.rows
  case worlds => exact hserve.worlds
  case replies =>
    intro m rpc' value hm hreply
    obtain ⟨old, hold, -, hrequest, ⟨rfl, hnew⟩ | ⟨-, hsame⟩⟩ := answer_cases hn hm
    · rw [hn, Option.some.injEq] at hold
      subst hold
      rw [hnew, Option.some.injEq] at hreply
      obtain ⟨data, hdata⟩ := exists_of_leaseCheckpoint hreply
      rw [hdata] at hreply
      obtain ⟨row, hrow, hvalue⟩ := handle_leaseCheckpoint_of_value hf hreply
      obtain ⟨c, hc⟩ := h.rows data.workflowId data.position row value hrow hvalue
      exact ⟨data, c, hrequest.trans hdata, hc.mono (List.subset_cons_self _ _)⟩
    · rw [hsame] at hreply
      obtain ⟨data, c, hdata, hc⟩ := hserve.replies m old value hold hreply
      exact ⟨data, c, hrequest.trans hdata, hc⟩
  case replaying =>
    intro c call' value k hc hphase
    obtain ⟨m, old, bytes, hold, hcall, hvalue, hreply⟩ := h.replaying c call' value k hc hphase
    refine ⟨m, old, bytes, ?_, hcall, hvalue, hreply⟩
    have hmn : n ≠ m := by
      intro heq
      subst heq
      rw [hn, Option.some.injEq] at hold
      rw [hold, hreply] at hp
      contradiction
    show (net.rpcs.set n _)[m]? = some old
    rw [List.getElem?_set_ne hmn]
    exact hold

/-- Calls that wait for a reply wait for one to a request of their own,
whatever happens. -/
theorem saves_none (hr : Reachable (step evictable wire) anyStep initial net) :
    net.Saves fun _ => false := by
  refine saves_of_reachable (hr.mono fun net l _ => ?_)
  cases l <;> simp [Saving]

theorem provenance_take (h : net.Provenance) (hwaits : net.Saves fun _ => false) {c : Nat}
    {call : Call V} {runner : Runner} {input : Input V} {turn : Turn V}
    (hc : net.calls[c]? = some call) (hi : Prompts net c call l input)
    (ht : call.execute.resume runner call.phase input = some turn) :
    (net.take wire c call runner input turn).Provenance := by
  constructor
  case handled => exact h.handled
  case rows => exact h.rows
  case worlds => exact h.worlds
  case replies =>
    intro n rpc value hn hreply
    rcases append_cases hn with hn | ⟨-, hsent⟩
    · exact h.replies n rpc value hn hreply
    · obtain ⟨adapterCall, -, rfl⟩ := Option.map_eq_some_iff.mp hsent
      contradiction
  case replaying =>
    intro c' call' value k hc' hphase
    rcases set_cases hc' with ⟨rfl, rfl⟩ | ⟨-, hc'⟩
    · obtain ⟨found, remaining, now, hleasing, rfl, hfound⟩ :=
        (ExecuteCall.resume_cases ht).deserializing_cases hphase
      have hcalling : call.phase.calling = true := by
        rw [hleasing]
        rfl
      obtain ⟨n, rpc, result, hn, hcall, hresult, hsettle⟩ :=
        reply_outcome hwaits hc hcalling hi
      obtain ⟨output, rfl, houtput⟩ := GrpcAdapter.settle_lease hsettle
      obtain ⟨bytes, hresponse, hvalue⟩ := GrpcAdapter.leaseReply_value houtput hfound
      refine ⟨n, rpc, bytes, append_some hn, hcall, hvalue, ?_⟩
      rw [hresult, ← hresponse]
    · obtain ⟨n, rpc, bytes, hn, hrest⟩ := h.replaying c' call' value k hc' hphase
      exact ⟨n, rpc, bytes, append_some hn, hrest⟩

theorem provenance_addCall (h : net.Provenance) {r : Nat} {runner : Runner}
    (execute : ExecuteCall) : (net.addCall wire r runner execute).Provenance := by
  constructor
  case handled => exact h.handled
  case rows => exact h.rows
  case worlds => exact h.worlds
  case replies =>
    intro n rpc value hn hreply
    rcases rpcs_addCall hn with hn | ⟨-, hnone, -⟩
    · exact h.replies n rpc value hn hreply
    · rw [hnone] at hreply
      contradiction
  case replaying =>
    intro c call value k hc hphase
    rcases calls_addCall hc with hc | ⟨-, rfl⟩
    · obtain ⟨n, rpc, bytes, hn, hrest⟩ := h.replaying c call value k hc hphase
      exact ⟨n, rpc, bytes, append_some hn, hrest⟩
    · contradiction

theorem provenance_addRunner (h : net.Provenance) (runner : Runner) :
    (net.addRunner runner).Provenance :=
  ⟨h.handled, h.rows, h.worlds, h.replies, h.replaying⟩

theorem provenance_step (hstep : Stepped evictable wire net l net') (h : net.Provenance)
    (hwaits : net.Saves fun _ => false) : net'.Provenance := by
  cases hstep with
  | started hf ht =>
      refine provenance_addRunner (provenance_serve h hf ?_) _
      intro data heq
      contradiction
  | called hr => exact provenance_addCall h _
  | answered hf hn hc hp => exact provenance_answer h hf hn hp
  | turned hc hr hi ht => exact provenance_take h hwaits hc hi ht
  | served hf hp =>
      refine provenance_serve h hf fun data heq => ?_
      rw [heq] at hp
      contradiction
  | ticked => exact h.of_world rfl
  | evicted hc he => exact h.of_world rfl

/-- **Every value ever stored or replied is the result of some call**, in every
run. -/
theorem provenance_of_reachable (hr : Reachable (step evictable wire) anyStep initial net) :
    net.Provenance :=
  hr.invariant_of_reachable Provenance (fun _ h => provenance_initial h)
    fun _ _ _ hr' h _ hstep => provenance_step (step_cases hstep) h (saves_none hr')

end Provenance

/-- The calls whose `onAbort.function` has been called and that are not settled
yet. -/
def compensating (net : Net V) : List Nat :=
  (List.range net.calls.length).filter fun c =>
    (net.calls[c]?.map fun call => call.phase.compensating).getD false

theorem mem_compensating {net : Net V} {c : Nat} :
    c ∈ net.compensating ↔ ∃ call, net.calls[c]? = some call ∧
      call.phase.compensating = true := by
  rw [compensating, List.mem_filter, List.mem_range]
  cases hc : net.calls[c]? with
  | none => simp
  | some call => simp [(List.getElem?_eq_some_iff.mp hc).1]

section Stepped

variable {evictable : CachedLease → Int → Bool} {wire : Wire} {net net' : Net V}
  {l : NetLabel V}

/-- A call begins to compensate by rolling back. -/
theorem compensating_stepped (hs : Stepped evictable wire net l net') {c : Nat}
    (hc : c ∈ net'.compensating) :
    c ∈ net.compensating ∨ ∃ call input, net.calls[c]? = some call ∧
      Prompts net c call l input ∧
      call.execute.RollsBack call.phase input := by
  cases hs with
  | started hf ht => exact .inl hc
  | answered hf hn hc' hp => exact .inl hc
  | served hf hp => exact .inl hc
  | ticked => exact .inl hc
  | evicted hc' he => exact .inl hc
  | called hr =>
      left
      obtain ⟨call, hcall, hphase⟩ := mem_compensating.mp hc
      rcases calls_addCall hcall with hold | ⟨-, rfl⟩
      · exact mem_compensating.mpr ⟨call, hold, hphase⟩
      · contradiction
  | @turned _ c' call runner input turn hc' hr hi ht =>
      obtain ⟨call', hcall', hphase⟩ := mem_compensating.mp hc
      rcases set_cases hcall' with ⟨rfl, rfl⟩ | ⟨-, hold⟩
      · rcases ExecuteCall.compensating_cases ht hphase with hrolls | hbefore
        · exact .inr ⟨call, input, hc', hi, hrolls⟩
        · exact .inl (mem_compensating.mpr ⟨call, hc', hbefore⟩)
      · exact .inl (mem_compensating.mpr ⟨call', hold, hphase⟩)

/-- A call that rolls back compensates then. -/
theorem compensating_of_rollsBack {c : Nat} {call : Call V} {runner : Runner} {input : Input V}
    {turn : Turn V} (hc : net.calls[c]? = some call)
    (ht : call.execute.resume runner call.phase input = some turn)
    (hrolls : call.execute.RollsBack call.phase input) :
    c ∈ (net.take wire c call runner input turn).compensating := by
  obtain ⟨v, hphase⟩ := ExecuteCall.rollingBack_of_rollsBack hrolls ht
  refine mem_compensating.mpr
    ⟨_, List.getElem?_set_self (List.getElem?_eq_some_iff.mp hc).1, ?_⟩
  show turn.phase.compensating = true
  rw [hphase]
  rfl

/-- The result of a call is stored when its request is handled. -/
theorem storedBy_stepped (hs : Stepped evictable wire net l net') {c : Nat}
    {workflowId : String} {position : Int} {value : Bytes}
    (hc : net'.StoredBy c workflowId position value) :
    net.StoredBy c workflowId position value ∨ ∃ n env rpc, l = .handle n env ∧
      net.rpcs[n]? = some rpc ∧ rpc.call = c ∧ net.world.Inserts rpc.request := by
  have fromElsewhere {env : Env} {request : Request}
      (h : (net.serve env none request).StoredBy c workflowId position value) :
      net.StoredBy c workflowId position value := by
    obtain ⟨e, he, ⟨sender, hsender, hcall⟩, hstores⟩ := h
    rcases List.mem_cons.mp he with rfl | he
    · contradiction
    · exact ⟨e, he, ⟨sender, hsender, hcall⟩, hstores⟩
  cases hs with
  | started hf ht => exact .inl (fromElsewhere hc)
  | served hf hp => exact .inl (fromElsewhere hc)
  | called hr => exact .inl hc
  | turned hc' hr hi ht => exact .inl hc
  | ticked => exact .inl hc
  | evicted hc' he => exact .inl hc
  | @answered n env rpc call hf hn hcall hp =>
      obtain ⟨e, he, ⟨sender, hsender, hsent⟩, hstores⟩ := hc
      rcases List.mem_cons.mp he with rfl | he
      · right
        cases hsender
        exact ⟨n, env, rpc, rfl, hn, hsent, (inserts_of_stores hf hstores).1⟩
      · exact .inl ⟨e, he, ⟨sender, hsender, hsent⟩, hstores⟩

end Stepped

end Net

/-! ## The calls that have compensated -/

/-- A network, and the calls whose `onAbort.function` has been called. -/
structure Audit (V : Type) where
  net : Net V
  compensated : List Nat

namespace Audit

variable {V : Type}

def initial (s : Audit V) : Prop := s.net.initial ∧ s.compensated = []

/-- A step of the network, and the calls that then compensate. -/
def step (evictable : CachedLease → Int → Bool) (wire : Wire) : Step (Audit V) (NetLabel V)
  | s, l => (Net.step evictable wire s.net l).map fun net =>
      { net := net, compensated := net.compensating ++ s.compensated }

/-- No request of a call that has compensated is stored any more, and no call
compensates that had one stored. -/
def Apart (s : Audit V) : NetLabel V → Prop
  | .handle n _ => ∀ rpc ∈ s.net.rpcs[n]?, rpc.call ∈ s.compensated →
      ¬ s.net.world.Inserts rpc.request
  | .deliver c now => ∀ call ∈ s.net.calls[c]?, ∀ result ∈ s.net.outcome call,
      call.execute.RollsBack call.phase (.reply result now) → ¬ s.net.Landed c
  | .fail c err now => ∀ call ∈ s.net.calls[c]?,
      call.execute.RollsBack call.phase (.reply (.error (GrpcAdapter.handleError err)) now) →
      ¬ s.net.Landed c
  | .resume c input => ∀ call ∈ s.net.calls[c]?, call.execute.RollsBack call.phase input →
      ¬ s.net.Landed c
  | _ => True

instance (s : Audit V) (l : NetLabel V) : Decidable (s.Apart l) :=
  match l with
  | .handle n _ => inferInstanceAs (Decidable (∀ rpc ∈ s.net.rpcs[n]?, _ → ¬ _))
  | .deliver c _ => inferInstanceAs
      (Decidable (∀ call ∈ s.net.calls[c]?, ∀ result ∈ s.net.outcome call, _ → ¬ _))
  | .fail c .. => inferInstanceAs (Decidable (∀ call ∈ s.net.calls[c]?, _ → ¬ _))
  | .resume c _ => inferInstanceAs (Decidable (∀ call ∈ s.net.calls[c]?, _ → ¬ _))
  | .execute .. => .isTrue trivial
  | .serve .. => .isTrue trivial
  | .start .. => .isTrue trivial
  | .tick .. => .isTrue trivial
  | .evict .. => .isTrue trivial

/-- **Compensation and persistence exclude each other**: a call that has
compensated never had its result stored; every value stored now or at any time
before, and every value a lease reply carried or a call goes on to return, is
the result of a call that has not compensated. -/
structure Exclusive (s : Audit V) : Prop where
  never : ∀ c ∈ s.compensated, ∀ workflowId position value,
    ¬ s.net.StoredBy c workflowId position value
  stored : ∀ workflowId position row value,
    s.net.world.checkpoints workflowId position = some row → row.value = some value →
    ∃ c, c ∉ s.compensated ∧ s.net.StoredBy c workflowId position value
  storedBefore : ∀ e ∈ s.net.served, ∀ workflowId position row value,
    e.handled.after.checkpoints workflowId position = some row → row.value = some value →
    ∃ c, c ∉ s.compensated ∧ s.net.StoredBy c workflowId position value
  replied : ∀ (n : Nat) (rpc : Rpc) value, s.net.rpcs[n]? = some rpc →
    rpc.reply = some (.ok (.leaseCheckpoint { response := some (.CheckpointValue value) })) →
    ∃ data c, rpc.request = .leaseCheckpoint data ∧ c ∉ s.compensated ∧
      s.net.StoredBy c data.workflowId data.position value
  returning : ∀ (c : Nat) (call : Call V) value k, s.net.calls[c]? = some call →
    call.phase = .deserializing value k → ∃ bytes c' workflowId position,
      value = .bytes bytes ∧ c' ∉ s.compensated ∧ s.net.StoredBy c' workflowId position bytes

section Audit

variable {evictable : CachedLease → Int → Bool} {wire : Wire} {s s' : Audit V} {l : NetLabel V}

theorem step_eq_some (h : step evictable wire s l = some s') :
    Net.step evictable wire s.net l = some s'.net ∧
      s'.compensated = s'.net.compensating ++ s.compensated := by
  simp only [step, Option.map_eq_some_iff] at h
  obtain ⟨net, hnet, rfl⟩ := h
  exact ⟨hnet, rfl⟩

/-- The network of an audited run runs as it does unaudited. -/
theorem net_reached {ok : Audit V → NetLabel V → Prop}
    (hr : Reachable (step evictable wire) ok initial s) :
    Reachable (Net.step evictable wire) anyStep Net.initial s.net := by
  refine hr.map Audit.net (fun _ h => h.1) fun s l s' _ _ hstep => ?_
  exact .step (.start rfl) trivial (step_eq_some hstep).1

/-- Given where values come from, the exclusion is that no call that has
compensated stored one. -/
theorem exclusive_iff (h : s.net.Provenance) :
    s.Exclusive ↔ ∀ c ∈ s.compensated, ∀ workflowId position value,
      ¬ s.net.StoredBy c workflowId position value := by
  constructor
  · exact Exclusive.never
  · intro hnever
    have hapart : ∀ {c workflowId position value}, s.net.StoredBy c workflowId position value →
        c ∉ s.compensated := fun hstored hc => hnever _ hc _ _ _ hstored
    constructor
    case never => exact hnever
    case stored =>
      intro workflowId position row value hrow hvalue
      obtain ⟨c, hc⟩ := h.rows workflowId position row value hrow hvalue
      exact ⟨c, hapart hc, hc⟩
    case storedBefore =>
      intro e he workflowId position row value hrow hvalue
      obtain ⟨c, hc⟩ := h.worlds e he workflowId position row value hrow hvalue
      exact ⟨c, hapart hc, hc⟩
    case replied =>
      intro n rpc value hn hreply
      obtain ⟨data, c, hdata, hc⟩ := h.replies n rpc value hn hreply
      exact ⟨data, c, hdata, hapart hc, hc⟩
    case returning =>
      intro c call value k hc hphase
      obtain ⟨n, rpc, bytes, hn, -, hvalue, hreply⟩ := h.replaying c call value k hc hphase
      obtain ⟨data, c', -, hc'⟩ := h.replies n rpc bytes hn hreply
      exact ⟨bytes, c', _, _, hvalue, hapart hc', hc'⟩

/-- A call had its result stored if and only if a checkpoint of it landed. -/
theorem landed_iff (h : s.net.Provenance) {c : Nat} :
    s.net.Landed c ↔
      ∃ workflowId position value, s.net.StoredBy c workflowId position value := by
  constructor
  · intro hlanded
    obtain ⟨e, he, hsender, hinserts⟩ := hlanded
    obtain ⟨env, hf, heq⟩ := h.handled e he
    obtain ⟨data, hstores, -⟩ := stores_of_inserts hf hinserts
    rw [← heq] at hstores
    exact ⟨_, _, _, e, he, hsender, hstores⟩
  · intro hstored
    obtain ⟨workflowId, position, value, e, he, hsender, hstores⟩ := hstored
    obtain ⟨env, hf, heq⟩ := h.handled e he
    rw [heq] at hstores
    exact ⟨e, he, hsender, (inserts_of_stores hf hstores).1⟩

/-- What an admitted step lets a call go on with. -/
theorem not_landed (h : s.Apart l) {c : Nat} {call : Call V} {input : Input V}
    (hc : s.net.calls[c]? = some call) (hi : Net.Prompts s.net c call l input)
    (hrolls : call.execute.RollsBack call.phase input) : ¬ s.net.Landed c := by
  cases hi with
  | delivered ho => exact h call hc _ ho hrolls
  | failed ha => exact h call hc hrolls
  | resumed ha => exact h call hc hrolls

/-- Who compensates has been counted. -/
theorem counted (hr : Reachable (step evictable wire) anyStep initial s) {c : Nat}
    (hc : c ∈ s.net.compensating) : c ∈ s.compensated := by
  cases hr with
  | start h =>
      obtain ⟨⟨now, -, hnet⟩, -⟩ := h
      rw [hnet] at hc
      contradiction
  | step _ _ hs =>
      rw [(step_eq_some hs).2]
      exact List.mem_append_left _ hc

/-- An admitted step keeps the exclusion. -/
theorem exclusive_step (hr : Reachable (step evictable wire) anyStep initial s)
    (h : s.Exclusive) (hapart : s.Apart l) (hs : step evictable wire s l = some s') :
    s'.Exclusive := by
  have hprovenance := Net.provenance_of_reachable (net_reached hr)
  have hprovenance' := Net.provenance_of_reachable (net_reached (hr.step trivial hs))
  rw [exclusive_iff hprovenance']
  obtain ⟨hnet, hcompensated⟩ := step_eq_some hs
  have hstepped := Net.step_cases hnet
  intro c hc workflowId position value hstored
  rw [hcompensated, List.mem_append] at hc
  -- Whether the call compensated before, or rolls back in this very step.
  have hcases : c ∈ s.compensated ∨ ∃ call input, s.net.calls[c]? = some call ∧
      Net.Prompts s.net c call l input ∧ call.execute.RollsBack call.phase input := by
    rcases hc with hnow | hbefore
    · rcases Net.compensating_stepped hstepped hnow with hold | hnew
      · exact .inl (counted hr hold)
      · exact .inr hnew
    · exact .inl hbefore
  rcases Net.storedBy_stepped hstepped hstored with hold | ⟨n, env, rpc, rfl, hn, rfl, hinserts⟩
  · rcases hcases with hbefore | ⟨call, input, hcall, hi, hrolls⟩
    · exact h.never c hbefore workflowId position value hold
    · exact not_landed hapart hcall hi hrolls
        ((landed_iff hprovenance).mpr ⟨workflowId, position, value, hold⟩)
  · rcases hcases with hbefore | ⟨call, input, hcall, hi, hrolls⟩
    · exact hapart rpc hn hbefore hinserts
    · cases hi

/-- A step that keeps the exclusion is admitted. -/
theorem apart_of_exclusive (hr : Reachable (step evictable wire) anyStep initial s)
    (hs : step evictable wire s l = some s') (h' : s'.Exclusive) : s.Apart l := by
  have hprovenance := Net.provenance_of_reachable (net_reached hr)
  obtain ⟨hnet, hcompensated⟩ := step_eq_some hs
  have hstepped := Net.step_cases hnet
  have hnever : ∀ {c}, c ∈ s'.net.compensating → s.net.served ⊆ s'.net.served →
    ¬ s.net.Landed c := by
    intro c hc hsub hlanded
    obtain ⟨workflowId, position, value, hstored⟩ := (landed_iff hprovenance).mp hlanded
    refine h'.never c ?_ workflowId position value (hstored.mono hsub)
    rw [hcompensated]
    exact List.mem_append_left _ hc
  generalize hnet' : s'.net = net' at hstepped hnever
  cases l with
  | handle n env =>
      intro rpc hn hcompensated' hinserts
      have hn : s.net.rpcs[n]? = some rpc := hn
      cases hstepped with
      | turned hc hr hi ht => cases hi
      | @answered _ _ rpc' call hf hn' hc hp =>
          rw [hn, Option.some.injEq] at hn'
          subst hn'
          obtain ⟨data, hstores, -⟩ := stores_of_inserts hf hinserts
          refine h'.never rpc.call ?_ data.workflowId data.position data.value ?_
          · rw [hcompensated]
            exact List.mem_append_right _ hcompensated'
          · rw [hnet']
            exact ⟨_, List.mem_cons_self, ⟨_, rfl, rfl⟩, hstores⟩
  | deliver c now =>
      intro call hc result ho hrolls
      have hc : s.net.calls[c]? = some call := hc
      have ho : s.net.outcome call = some result := ho
      cases hstepped with
      | turned hc' hr hi ht =>
          cases hi with
          | delivered ho' =>
              rw [hc, Option.some.injEq] at hc'
              subst hc'
              rw [ho, Option.some.injEq] at ho'
              subst ho'
              exact hnever (Net.compensating_of_rollsBack hc ht hrolls) (fun _ he => he)
  | fail c err now =>
      intro call hc hrolls
      have hc : s.net.calls[c]? = some call := hc
      cases hstepped with
      | turned hc' hr hi ht =>
          cases hi with
          | failed ha =>
              rw [hc, Option.some.injEq] at hc'
              subst hc'
              exact hnever (Net.compensating_of_rollsBack hc ht hrolls) (fun _ he => he)
  | resume c input =>
      intro call hc hrolls
      have hc : s.net.calls[c]? = some call := hc
      cases hstepped with
      | turned hc' hr hi ht =>
          cases hi with
          | resumed ha =>
              rw [hc, Option.some.injEq] at hc'
              subst hc'
              exact hnever (Net.compensating_of_rollsBack hc ht hrolls) (fun _ he => he)
  | _ => trivial

/-- **Compensation and persistence exclude each other exactly as long as** no
call whose `onAbort.function` was called has a checkpoint stored afterwards, and
none compensates that had one stored before. -/
theorem compensation_excludes_persistence_iff
    (hr : Reachable (step evictable wire) Apart initial s) :
    s.Exclusive ∧ ∀ l s', step evictable wire s l = some s' → (s'.Exclusive ↔ s.Apart l) := by
  have hrun : ∀ {s : Audit V}, Reachable (step evictable wire) Apart initial s →
      Reachable (step evictable wire) anyStep initial s := fun hr =>
        hr.mono fun _ _ _ => trivial
  have hexclusive : s.Exclusive := by
    refine hr.invariant_of_reachable Exclusive ?_ ?_
    · intro s h
      rw [exclusive_iff (Net.provenance_initial h.1), h.2]
      intro c hc
      contradiction
    · intro s l s' hr' h hapart hs
      exact exclusive_step (hrun hr') h hapart hs
  refine ⟨hexclusive, fun l s' hs => ?_⟩
  constructor
  · exact apart_of_exclusive (hrun hr) hs
  · intro hapart
    exact exclusive_step (hrun hr) hexclusive hapart hs

end Audit

end Audit

/-! ## Two runs -/

/-- A step with an `onAbort`, leased for a second. -/
def attended : ExecuteCall :=
  { idempotencyKey := "k"
    options :=
      { leaseTimeout := some 1000,
        onAbort := some { retryCount := none, retryDelay := none } } }

/-- A worker starts a workflow and its first step ends with `[7]`; it checkpoints,
`meanwhile` happens, and the call gives up when its lease has expired. -/
def givesUp (meanwhile : List (NetLabel Bytes)) : List (NetLabel Bytes) :=
  [.start "pay" none none (.calm "" true), .execute 0 attended, .handle 0 (.calm "" true),
    .deliver 0 0, .resume 0 (.taskSettled (.ok [7])),
    .resume 0 (.serialized (.ok (.bytes [7])) 0)] ++ meanwhile ++
    [.tick 1000, .fail 0 { details := "", message := "connection lost" } 1000]

/-- A second worker starts the workflow and asks for the step. -/
def secondAsks : List (NetLabel Bytes) :=
  [.start "pay" none none (.calm "" true), .execute 1 attended, .handle 2 (.calm "" true),
    .deliver 1 1000]

/-- The audited network before anything has happened. -/
def Audit.start (V : Type) : Audit V := { net := Net.start V, compensated := [] }

theorem Audit.initial_start (V : Type) : (Audit.start V).initial := ⟨Net.initial_start V, rfl⟩

/-- The first worker's checkpoint is late: the second one has run the step again
when it is handled, and keeps its row. -/
theorem late_checkpoint_excluded :
    ∃ s, execOk (Audit.step leaseExpired silentWire) Audit.Apart (Audit.start Bytes)
        (givesUp [] ++ secondAsks ++ [.resume 1 (.taskSettled (.ok [8])),
          .resume 1 (.serialized (.ok (.bytes [8])) 1000), .handle 3 (.calm "" true),
          .handle 1 (.calm "" true), .deliver 1 1000]) = some s ∧
      0 ∈ s.compensated ∧
      (s.net.world.checkpoints "pay" 0).bind Checkpoint.value = some [8] ∧ s.Exclusive := by
  obtain ⟨s, hs⟩ : ∃ s, execOk (Audit.step leaseExpired silentWire) Audit.Apart
    (Audit.start Bytes)
      (givesUp [] ++ secondAsks ++ [.resume 1 (.taskSettled (.ok [8])),
        .resume 1 (.serialized (.ok (.bytes [8])) 1000), .handle 3 (.calm "" true),
        .handle 1 (.calm "" true), .deliver 1 1000]) = some s :=
    Option.isSome_iff_exists.mp (by decide +kernel)
  have hcompensated := eq_of_outcome hs (fun s => decide (0 ∈ s.compensated)) (a := true)
    (by decide +kernel)
  have hvalue := eq_of_outcome hs
    (fun s => (s.net.world.checkpoints "pay" 0).bind Checkpoint.value) (a := some [8])
    (by decide +kernel)
  exact ⟨s, hs, of_decide_eq_true hcompensated, hvalue,
    (Audit.compensation_excludes_persistence_iff
      (.of_execOk (.start (Audit.initial_start Bytes)) hs)).1⟩

/-- The first worker's checkpoint is stored but the reply is lost: it
compensates, and the second worker returns the result that was undone. -/
theorem undone_result_replayed :
    ∃ s, exec (Audit.step leaseExpired silentWire) (Audit.start Bytes)
        (givesUp [.handle 1 (.calm "" true)] ++ secondAsks ++
          [.resume 1 (.deserialized (.ok [7]))]) = some s ∧
      Reachable (Audit.step leaseExpired silentWire) anyStep Audit.initial s ∧
      0 ∈ s.compensated ∧ s.net.StoredBy 0 "pay" 0 [7] ∧
      (s.net.world.checkpoints "pay" 0).bind Checkpoint.value = some [7] ∧
      (s.net.returned.map fun r => (r.call, r.value)) = [(1, [7])] ∧ ¬ s.Exclusive := by
  obtain ⟨s, hs⟩ : ∃ s, exec (Audit.step leaseExpired silentWire) (Audit.start Bytes)
      (givesUp [.handle 1 (.calm "" true)] ++ secondAsks ++
        [.resume 1 (.deserialized (.ok [7]))]) = some s :=
    Option.isSome_iff_exists.mp (by decide +kernel)
  have hcompensated := eq_of_outcome hs (fun s => decide (0 ∈ s.compensated)) (a := true)
    (by decide +kernel)
  have hstored := eq_of_outcome hs (fun s => decide (s.net.StoredBy 0 "pay" 0 [7])) (a := true)
    (by decide +kernel)
  have hvalue := eq_of_outcome hs
    (fun s => (s.net.world.checkpoints "pay" 0).bind Checkpoint.value) (a := some [7])
    (by decide +kernel)
  have hreturned := eq_of_outcome hs (fun s => s.net.returned.map fun r => (r.call, r.value))
    (a := [(1, [7])]) (by decide +kernel)
  have hr : Reachable (Audit.step leaseExpired silentWire) anyStep Audit.initial s :=
    .of_exec (.start (Audit.initial_start Bytes)) hs
  refine ⟨s, hs, hr, of_decide_eq_true hcompensated, of_decide_eq_true hstored,
    hvalue, hreturned, fun h => ?_⟩
  exact h.never 0 (of_decide_eq_true hcompensated) "pay" 0 [7] (of_decide_eq_true hstored)

end IdempotentTransformer
