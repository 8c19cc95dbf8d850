import IdempotentTransformer.Workers

/-!
# IdempotentTransformer.Guard

The parallelism guard, end to end: any number of workers run a workflow, in
any order of their requests, and for every position the task completes at
most once and every call returns the one stored value.

What the guard needs is that every result is delivered in time (`Timely`).
Then a lease in force is the one cached and a row is stored only while no
lease of another call is in force, so a second task can complete neither
beside the first nor after it (`Safe`).
-/

namespace IdempotentTransformer

open Library

namespace Net

variable {V : Type}

/-! ## Assumptions -/

/-- A task that completed or rejected has its checkpoint or release handled,
or the lease granted for it last is in force. -/
def Timely (net : Net V) : Prop :=
  ∀ e ∈ net.ended, ¬ net.Settled e.call →
    ∀ lease ∈ net.leaseOf Sender.call e.call e.workflowId e.position,
      ¬ lease.Expired net.world.now

instance (net : Net V) : Decidable net.Timely :=
  inferInstanceAs (Decidable (∀ e ∈ net.ended, _))

/-- The steps the guard is claimed for. -/
def Admitted (serializer : Serializer V) (wire : Wire) (net : Net V) (l : NetLabel V) : Prop :=
  net.Guarded serializer l ∧ ∀ net' ∈ step leaseExpired wire net l, net'.Timely

instance [DecidableEq V] (serializer : Serializer V) (wire : Wire) (net : Net V)
    (l : NetLabel V) : Decidable (net.Admitted serializer wire l) :=
  inferInstanceAs (Decidable (_ ∧ ∀ net' ∈ step leaseExpired wire net l, net'.Timely))

/-! ## The invariant -/

/-- The workflows of all runners and calls have a token. -/
structure Started (net : Net V) : Prop where
  runners : ∀ runner ∈ net.runners, (net.world.fencingTokens runner.workflowId).isSome = true
  calls : ∀ call ∈ net.calls, (net.world.fencingTokens call.workflowId).isSome = true

/-- What the guard rests on. -/
structure Safe (serializer : Serializer V) (wire : Wire) (net : Net V) : Prop where
  timely : net.Timely
  tenancy : ∀ workflowId position, net.Tenancy Sender.call workflowId position
  /-- A row holds the result of a task that completed. -/
  rows : ∀ workflowId position row, net.world.checkpoints workflowId position = some row →
    ∃ e ∈ net.ended, ∃ v, e.workflowId = workflowId ∧ e.position = position ∧ e.result = .ok v ∧
      row.value = some (GrpcAdapter.setValue wire (serializer.serialize v))
  /-- Beside a row no lease is in force. -/
  spent : ∀ workflowId position row, net.world.checkpoints workflowId position = some row →
    ∀ c lease, net.leaseOf Sender.call c workflowId position = some lease →
      lease.Expired net.world.now
  /-- A handled checkpoint left a row. -/
  stored : ∀ e ∈ net.ended, ∀ v, e.result = .ok v → net.Settled e.call →
    ∃ row, net.world.checkpoints e.workflowId e.position = some row
  /-- A value in a reply is that of the row. -/
  replays : ∀ (n : Nat) (rpc : Rpc) data bytes, net.rpcs[n]? = some rpc →
    rpc.request = .leaseCheckpoint data →
    rpc.reply = some (.ok (.leaseCheckpoint { response := some (.CheckpointValue bytes) })) →
    ∃ row, net.world.checkpoints data.workflowId data.position = some row ∧
      row.value = some bytes
  deserializing : ∀ (c : Nat) (call : Call V) value k, net.calls[c]? = some call →
    call.phase = .deserializing value k →
    ∃ row bytes, net.world.checkpoints call.workflowId call.position = some row ∧
      row.value = some bytes ∧ value = .bytes bytes
  /-- A call returns the result of a task that completed. -/
  returned : ∀ r ∈ net.returned, ∃ e ∈ net.ended, e.workflowId = r.workflowId ∧
    e.position = r.position ∧ e.result = .ok r.value
  /-- One task completes. -/
  once : ∀ e ∈ net.ended, ∀ e' ∈ net.ended, ∀ v v', e.result = .ok v → e'.result = .ok v' →
    e.workflowId = e'.workflowId → e.position = e'.position → e = e'

theorem safe_initial (serializer : Serializer V) (wire : Wire) {net : Net V} (h : net.initial) :
    net.Safe serializer wire := by
  obtain ⟨now, -, rfl⟩ := h
  constructor
  case tenancy => exact fun _ _ => Exclusive.nil _ _
  all_goals simp [Timely, World.empty]

section Obligations

variable {serializer : Serializer V} {wire : Wire} {net : Net V}

/-- Whoever gave a position back has had its request handled. -/
theorem settled_of_giveBack {c : Nat} {workflowId : String} {position : Int}
    (h : Move.giveBack c ∈ net.moves Sender.call workflowId position) : net.Settled c := by
  obtain ⟨s, hs, hmove⟩ := List.mem_filterMap.mp h
  obtain ⟨sender, hsender, hmove⟩ := Option.bind_eq_some_iff.mp hmove
  split at hmove
  · cases hmove
  · split at hmove
    · next he =>
        cases hmove
        exact ⟨s, hs, by rw [hsender]; rfl, he.1⟩
    · contradiction

theorem grant_of_granted {c : Nat} {workflowId : String} {position : Int}
    (h : net.Granted c workflowId position) :
    ∃ lease, Move.grant c lease ∈ net.moves Sender.call workflowId position := by
  obtain ⟨s, hs, hsender, token, lease, hgrant⟩ := h
  obtain ⟨sender, hs', rfl⟩ := Option.map_eq_some_iff.mp hsender
  refine ⟨lease, List.mem_filterMap.mpr ⟨s, hs, ?_⟩⟩
  rw [Served.move, hs', Option.bind_some, hgrant]

/-- **A call whose result is not handled yet has its lease in force.** -/
theorem lease_of_unsettled (hrecord : net.Record) (ht : net.Timely) {e : TaskEnd V}
    (he : e ∈ net.ended) (hu : ¬ net.Settled e.call) :
    ∃ lease, net.leaseOf Sender.call e.call e.workflowId e.position = some lease ∧
      ¬ lease.Expired net.world.now := by
  obtain ⟨lease, hlease⟩ := outstanding_of_grant (grant_of_granted (hrecord.ended e he))
    fun hback => hu (settled_of_giveBack hback)
  exact ⟨lease, hlease, ht e he hu lease hlease⟩

end Obligations

/-! ## Handling a request -/

section Answer

variable {serializer : Serializer V} {wire : Wire} {net : Net V} {env : Env}
  (hf : env.fault = .none) {n : Nat} {rpc : Rpc} {call : Call V}

/-- A release is handled while its call is not settled. -/
theorem unsettled_of_release (hshape : net.Shape serializer wire) (hrecord : net.Record)
    (hn : net.rpcs[n]? = some rpc) (hp : rpc.reply = none) {data : ReleaseCheckpointInput}
    (hdata : rpc.request = .releaseCheckpoint data) : ¬ net.Settled rpc.call := by
  rintro ⟨s, hs, hsender, he⟩
  obtain ⟨sender, hs', hcall⟩ := Option.map_eq_some_iff.mp hsender
  obtain ⟨m, old, hm, hcall', hrequest, hreply⟩ := hrecord.served s hs sender hs'
  rw [hcall] at hcall'
  obtain ⟨err, hended⟩ := hshape.releases n rpc data hn hdata
  rw [← hrequest] at he
  cases hold : old.request with
  | releaseCheckpoint data' =>
      have hnm := hshape.releasedOnce m n old rpc data' data hm hn hold hdata hcall'
      subst hnm
      rw [hn, Option.some.injEq] at hm
      rw [← hm, hp] at hreply
      contradiction
  | checkpoint data' =>
      obtain ⟨v, hended', -⟩ := hshape.checkpoints m old data' hm hold
      have heq := hshape.endedOnce hended' hended hcall'
      simp at heq
  | _ =>
      rw [hold] at he
      contradiction

/-- The task end a checkpoint or release reports. -/
theorem ended_of_endsLease (hshape : net.Shape serializer wire) (hn : net.rpcs[n]? = some rpc)
    (he : rpc.request.endsLease = true) {workflowId : String} {position : Int}
    (hposition : rpc.request.leasePosition = some (workflowId, position)) :
    ∃ e ∈ net.ended, e.call = rpc.call ∧ e.workflowId = workflowId ∧ e.position = position ∧
      ((∃ data v, rpc.request = .checkpoint data ∧ e.result = .ok v) ∨
        ∃ data err, rpc.request = .releaseCheckpoint data ∧ e.result = .error err) := by
  cases hrequest : rpc.request with
  | checkpoint data =>
      rw [hrequest] at hposition
      cases hposition
      obtain ⟨v, hended, -⟩ := hshape.checkpoints n rpc data hn hrequest
      exact ⟨_, hended, rfl, rfl, rfl, .inl ⟨data, v, rfl, rfl⟩⟩
  | releaseCheckpoint data =>
      rw [hrequest] at hposition
      cases hposition
      obtain ⟨err, hended⟩ := hshape.releases n rpc data hn hrequest
      exact ⟨_, hended, rfl, rfl, rfl, .inr ⟨data, err, rfl, rfl⟩⟩
  | _ =>
      rw [hrequest] at he
      contradiction

/-- **A position is given back in time**: no other call has it in force. -/
theorem others_expired (hshape : net.Shape serializer wire) (hrecord : net.Record)
    (h : net.Safe serializer wire) (hn : net.rpcs[n]? = some rpc) (hp : rpc.reply = none)
    (he : rpc.request.endsLease = true) {workflowId : String} {position : Int}
    (hposition : rpc.request.leasePosition = some (workflowId, position)) {j : Nat}
    {lease : LeasedCheckpointValue} (hj : j ≠ rpc.call)
    (hlease : net.leaseOf Sender.call j workflowId position = some lease) :
    lease.Expired net.world.now := by
  obtain ⟨e, hended, hcall, rfl, rfl, hkind⟩ := ended_of_endsLease hshape hn he hposition
  by_cases hsettled : net.Settled rpc.call
  · rcases hkind with ⟨data, v, -, hv⟩ | ⟨data, err, hrelease, -⟩
    · obtain ⟨row, hrow⟩ := h.stored e hended v hv (hcall ▸ hsettled)
      exact h.spent _ _ row hrow j lease hlease
    · exact absurd hsettled (unsettled_of_release hshape hrecord hn hp hrelease)
  · have hown := lease_of_unsettled hrecord h.timely hended (hcall ▸ hsettled)
    exact not_not.mp ((h.tenancy e.workflowId e.position).others (.inl hown)
      (hcall ▸ hj) hlease)

include hf

/-- The lease a call has after a request was handled: it had it before and did
not give it back, or it is granted now. -/
theorem leaseOf_answer {j : Nat} {workflowId : String} {position : Int}
    {lease : LeasedCheckpointValue}
    (h : (net.answer env n rpc call).leaseOf Sender.call j workflowId position = some lease) :
    (net.leaseOf Sender.call j workflowId position = some lease ∧
        (rpc.request.endsLease = true →
          rpc.request.leasePosition = some (workflowId, position) → j ≠ rpc.call)) ∨
      ∃ data, rpc.request = .leaseCheckpoint data ∧ data.workflowId = workflowId ∧
        data.position = position ∧ (rpc.request.handle env net.world).1 = granted := by
  have hmoves : outstanding j ((net.serve env (some { call := rpc.call, runner := call.runner })
      rpc.request).moves Sender.call workflowId position) = some lease := h
  rcases serve_tenancy hf net
    { call := rpc.call, runner := call.runner } rpc.request Sender.call workflowId position with
    ⟨-, -, hback, -⟩ | ⟨data, hdata, hw, hp, hg, -, -⟩ | ⟨hends, hsame, -⟩
  · rw [hback, outstanding] at hmoves
    split at hmoves
    · contradiction
    · next hj => exact .inl ⟨hmoves, fun _ _ heq => hj heq.symm⟩
  · exact .inr ⟨data, hdata, hw, hp, hg⟩
  · rw [hsame] at hmoves
    refine .inl ⟨hmoves, fun he hposition => ?_⟩
    rw [hends hposition] at he
    contradiction

/-- A row after a request was handled: its value was there before, or a
checkpoint stores it. -/
theorem row_answer (hspares : rpc.request.sparesRows = true) {workflowId : String}
    {position : Int} {row : Checkpoint}
    (h : (rpc.request.handle env net.world).2.checkpoints workflowId position = some row) :
    (∃ old, net.world.checkpoints workflowId position = some old ∧ old.value = row.value) ∨
      (net.world.checkpoints workflowId position = none ∧
        ∃ data, rpc.request = .checkpoint data ∧
        data.workflowId = workflowId ∧ data.position = position ∧
          row.value = some data.value) := by
  have hu : rpc.request ≠ .cleanUp := by
    intro heq
    rw [heq] at hspares
    contradiction
  rcases handle_checkpoints_cases hf net.world hu workflowId position with
    hsame | ⟨old, hold, hnew⟩ | ⟨hnone, ⟨data, hdata, hw, hp, -, hnew⟩ | ⟨data, hdata, -⟩⟩
  · exact .inl ⟨row, hsame ▸ h, rfl⟩
  · rw [hnew, Option.some.injEq] at h
    exact .inl ⟨old, hold, by rw [← h]⟩
  · rw [hnew, Option.some.injEq] at h
    exact .inr ⟨hnone, data, hdata, hw, hp, by rw [← h]; rfl⟩
  · rw [hdata] at hspares
    contradiction

/-- A stored value stays. -/
theorem row_kept {request : Request} (hspares : request.sparesRows = true) {w : World}
    {workflowId : String} {position : Int} {row : Checkpoint}
    (h : w.checkpoints workflowId position = some row) :
    ∃ new, (request.handle env w).2.checkpoints workflowId position = some new ∧
      new.value = row.value := by
  have hu : request ≠ .cleanUp := by
    intro heq
    rw [heq] at hspares
    contradiction
  obtain ⟨createdAt, hnew⟩ := handle_row_persists hf w hu h
  exact ⟨_, hnew, rfl⟩

/-- **A checkpoint leaves a row**: if it is the first of its call, the lease of
its call is in force, and it is accepted. -/
theorem row_of_checkpoint (hshape : net.Shape serializer wire) (hrecord : net.Record)
    (hstarted : net.Started) (h : net.Safe serializer wire) (hn : net.rpcs[n]? = some rpc)
    {data : CheckpointInput} (hdata : rpc.request = .checkpoint data) :
    ∃ row, (rpc.request.handle env net.world).2.checkpoints data.workflowId data.position =
      some row := by
  obtain ⟨v, hended, -⟩ := hshape.checkpoints n rpc data hn hdata
  by_cases hsettled : net.Settled rpc.call
  · obtain ⟨row, hrow⟩ := h.stored _ hended v rfl hsettled
    have hspares : rpc.request.sparesRows = true := by rw [hdata]; rfl
    obtain ⟨new, hnew, -⟩ := row_kept hf hspares hrow
    exact ⟨new, hnew⟩
  · obtain ⟨lease, hlease, hlive⟩ := lease_of_unsettled hrecord h.timely hended hsettled
    obtain ⟨hcached, -⟩ := h.tenancy data.workflowId data.position rpc.call lease hlease hlive
    obtain ⟨call, hc, hplace⟩ := hshape.sent n rpc hn
    rw [hdata, Request.leasePosition, Option.some.injEq, Prod.mk.injEq] at hplace
    obtain ⟨stored, htoken⟩ := Option.isSome_iff_exists.mp
      (hstarted.calls call (List.mem_of_getElem? hc))
    rw [← hplace.1] at htoken
    have haccepted : ∃ abort, ((Request.checkpoint data).handle env net.world).1 =
        .ok (.checkpoint { abort := abort }) := by
      refine ⟨_, (handle_checkpoint_ok_iff hf net.world data _).mpr ⟨stored, htoken, rfl, ?_⟩⟩
      intro _ leased hleased
      rw [hcached, Option.mem_some_iff] at hleased
      exact hleased ▸ hlive
    rw [hdata, handle_checkpoint_checkpoints hf, if_pos haccepted]
    exact ⟨_, rfl⟩

omit hf in
/-- A handled request settles its own call at most. -/
theorem settled_answer {c : Nat} (h : (net.answer env n rpc call).Settled c) :
    net.Settled c ∨ (c = rpc.call ∧ rpc.request.endsLease = true) := by
  obtain ⟨s, hs, hsender, he⟩ := h
  rcases List.mem_cons.mp hs with rfl | hs
  · exact .inr ⟨(Option.some.inj hsender).symm, he⟩
  · exact .inl ⟨s, hs, hsender, he⟩

theorem safe_answer (hshape : net.Shape serializer wire) (hrecord : net.Record)
    (hstarted : net.Started) (h : net.Safe serializer wire) (hn : net.rpcs[n]? = some rpc)
    (hp : rpc.reply = none) (ht : (net.answer env n rpc call).Timely)
    (htenancy : ∀ workflowId position,
      (net.answer env n rpc call).Tenancy Sender.call workflowId position) :
    (net.answer env n rpc call).Safe serializer wire := by
  obtain ⟨_, -, hplace⟩ := hshape.sent n rpc hn
  have hspares := Request.sparesRows_of_leasePosition hplace
  have hnow : (net.answer env n rpc call).world.now = net.world.now :=
    handle_now env rpc.request net.world
  constructor
  case timely => exact ht
  case tenancy => exact htenancy
  case returned => exact h.returned
  case once => exact h.once
  case rows =>
    intro workflowId position row hrow
    rcases row_answer hf hspares hrow with
      ⟨old, hold, hvalue⟩ | ⟨-, data, hdata, rfl, rfl, hvalue⟩
    · obtain ⟨e, he, v, hw, hposition, hresult, hstored⟩ := h.rows workflowId position old hold
      exact ⟨e, he, v, hw, hposition, hresult, hvalue ▸ hstored⟩
    · obtain ⟨v, hended, hbytes⟩ := hshape.checkpoints n rpc data hn hdata
      exact ⟨_, hended, v, rfl, rfl, rfl, by rw [hvalue, hbytes]⟩
  case spent =>
    intro workflowId position row hrow c lease hlease
    rw [hnow]
    rcases leaseOf_answer hf hlease with ⟨hold, hother⟩ | ⟨data, hdata, rfl, rfl, hg⟩
    · rcases row_answer hf hspares hrow with ⟨old, hrow, -⟩ | ⟨-, data, hdata, rfl, rfl, -⟩
      · exact h.spent workflowId position old hrow c lease hold
      · have hends : rpc.request.endsLease = true := by rw [hdata]; rfl
        have hposition : rpc.request.leasePosition = some (data.workflowId, data.position) := by
          rw [hdata]; rfl
        exact others_expired hshape hrecord h hn hp hends hposition
          (hother hends hposition) hold
    · -- A lease is granted only where there is no row.
      rw [hdata] at hg
      have hnone := ((handle_leaseCheckpoint_granted_iff hf net.world data).mp hg).1
      rcases row_answer hf hspares hrow with ⟨old, hold, -⟩ | ⟨-, data', hdata', -⟩
      · rw [hnone] at hold
        contradiction
      · rw [hdata] at hdata'
        contradiction
  case stored =>
    intro e he v hv hsettled
    rcases settled_answer hsettled with hold | ⟨hcall, hends⟩
    · obtain ⟨row, hrow⟩ := h.stored e he v hv hold
      obtain ⟨new, hnew, -⟩ := row_kept hf hspares hrow
      exact ⟨new, hnew⟩
    · obtain ⟨e', he', hcall', -, -, hkind⟩ := ended_of_endsLease hshape hn hends hplace
      have heq := hshape.endedOnce he he' (hcall.trans hcall'.symm)
      subst heq
      rcases hkind with ⟨data, v', hdata, -⟩ | ⟨data, err, -, herr⟩
      · obtain ⟨v', hended, -⟩ := hshape.checkpoints n rpc data hn hdata
        have heq := hshape.endedOnce he hended hcall
        rw [heq]
        exact row_of_checkpoint hf hshape hrecord hstarted h hn hdata
      · rw [hv] at herr
        contradiction
  case replays =>
    intro m rpc' data bytes hm hdata hreply
    obtain ⟨old, hold, -, hrequest, ⟨rfl, hnew⟩ | ⟨-, hkept⟩⟩ := answer_cases hn hm
    · rw [hn, Option.some.injEq] at hold
      subst hold
      rw [hnew, ← hrequest, hdata, Option.some.injEq] at hreply
      obtain ⟨row, hrow, hvalue⟩ := handle_leaseCheckpoint_of_value hf hreply
      obtain ⟨new, hnew, hvalue'⟩ := row_kept hf hspares hrow
      exact ⟨new, hnew, hvalue'.trans hvalue⟩
    · obtain ⟨row, hrow, hvalue⟩ :=
        h.replays m old data bytes hold (hrequest ▸ hdata) (hkept ▸ hreply)
      obtain ⟨new, hnew, hvalue'⟩ := row_kept hf hspares hrow
      exact ⟨new, hnew, hvalue'.trans hvalue⟩
  case deserializing =>
    intro c call' value k hc hphase
    obtain ⟨row, bytes, hrow, hvalue, hbytes⟩ := h.deserializing c call' value k hc hphase
    obtain ⟨new, hnew, hvalue'⟩ := row_kept hf hspares hrow
    exact ⟨new, bytes, hnew, hvalue'.trans hvalue, hbytes⟩

end Answer

/-! ## The other steps -/

section Steps

variable {serializer : Serializer V} {wire : Wire} {net net' : Net V}

/-- A step of the server that concerns no lease and no row. -/
structure Quiet (net net' : Net V) : Prop where
  calls : net'.calls = net.calls
  rpcs : net'.rpcs = net.rpcs
  ended : net'.ended = net.ended
  returned : net'.returned = net.returned
  now : net.world.now ≤ net'.world.now
  rows : net'.world.checkpoints = net.world.checkpoints
  leaseOf : ∀ c workflowId position,
    net'.leaseOf Sender.call c workflowId position =
      net.leaseOf Sender.call c workflowId position
  settled : ∀ c, net'.Settled c → net.Settled c

theorem Quiet.serve {env : Env} (hf : env.fault = .none) {request : Request}
    (hp : request.leasePosition = none) (hspares : request.sparesRows = true) :
    Quiet net (net.serve env none request) := by
  constructor
  case calls => rfl
  case rpcs => rfl
  case ended => rfl
  case returned => rfl
  case now => exact le_of_eq (serve_now env none request net).symm
  case rows =>
    apply handle_checkpoints_eq hf net.world
    · intro data heq
      rw [heq] at hp
      contradiction
    · intro data heq
      rw [heq] at hspares
      contradiction
    · intro heq
      rw [heq] at hspares
      contradiction
  case leaseOf =>
    intro c workflowId position
    exact congrArg (outstanding c)
      (serve_elsewhere hf net request Sender.call workflowId position hp).1
  case settled =>
    intro c h
    obtain ⟨s, hs, hsender, he⟩ := h
    rcases List.mem_cons.mp hs with rfl | hs
    · contradiction
    · exact ⟨s, hs, hsender, he⟩

theorem safe_quiet (h : net.Safe serializer wire) (hq : Quiet net net') (ht : net'.Timely)
    (htenancy : ∀ workflowId position, net'.Tenancy Sender.call workflowId position) :
    net'.Safe serializer wire := by
  constructor
  case timely => exact ht
  case tenancy => exact htenancy
  case rows =>
    rw [hq.rows, hq.ended]
    exact h.rows
  case spent =>
    intro workflowId position row hrow c lease hlease
    rw [hq.rows] at hrow
    rw [hq.leaseOf] at hlease
    exact (h.spent workflowId position row hrow c lease hlease).mono hq.now
  case stored =>
    intro e he v hv hsettled
    rw [hq.ended] at he
    rw [hq.rows]
    exact h.stored e he v hv (hq.settled e.call hsettled)
  case replays =>
    rw [hq.rpcs, hq.rows]
    exact h.replays
  case deserializing =>
    rw [hq.calls, hq.rows]
    exact h.deserializing
  case returned =>
    rw [hq.returned, hq.ended]
    exact h.returned
  case once =>
    rw [hq.ended]
    exact h.once

/-- A new call waits for a reply. -/
theorem safe_addCall (h : net.Safe serializer wire) {r : Nat} {runner : Runner}
    {execute : ExecuteCall} (ht : (net.addCall wire r runner execute).Timely)
    (htenancy : ∀ workflowId position,
      (net.addCall wire r runner execute).Tenancy Sender.call workflowId position) :
    (net.addCall wire r runner execute).Safe serializer wire := by
  constructor
  case timely => exact ht
  case tenancy => exact htenancy
  case rows => exact h.rows
  case spent => exact h.spent
  case stored => exact h.stored
  case returned => exact h.returned
  case once => exact h.once
  case replays =>
    intro n rpc data bytes hn hdata hreply
    rcases rpcs_addCall hn with hn | ⟨-, hnone, -⟩
    · exact h.replays n rpc data bytes hn hdata hreply
    · rw [hnone] at hreply
      contradiction
  case deserializing =>
    intro c call value k hc hphase
    rcases calls_addCall hc with hc | ⟨-, rfl⟩
    · exact h.deserializing c call value k hc hphase
    · contradiction

section Take

variable {l : NetLabel V} {c : Nat} {call : Call V} {runner : Runner} {input : Input V}
  {turn : Turn V}

/-- A call whose task has not ended has sent nothing that could settle it. -/
theorem unsettled_of_early (hshape : net.Shape serializer wire) (hrecord : net.Record)
    (hc : net.calls[c]? = some call) (hearly : call.phase.early = true) : ¬ net.Settled c := by
  intro hsettled
  obtain ⟨s, hs, hsender, hends⟩ := hsettled
  obtain ⟨sender, hs', hcall⟩ := Option.map_eq_some_iff.mp hsender
  obtain ⟨n, rpc, hn, hrpc, hrequest, -⟩ := hrecord.served s hs sender hs'
  obtain ⟨call', -, hplace⟩ := hshape.sent n rpc hn
  obtain ⟨e, he, hcall', -⟩ := ended_of_endsLease hshape hn (hrequest ▸ hends) hplace
  exact hshape.early c call hc hearly e he (hcall'.trans (hrpc.trans hcall))

/-- **No second task completes** at a position: the lease of the first is in
force, or its row is stored and no lease is. -/
theorem completes_alone (hshape : net.Shape serializer wire) (hrecord : net.Record)
    (h : net.Safe serializer wire) (hc : net.calls[c]? = some call) {now : Int}
    (hphase : call.phase = .running now)
    (hlive : ∀ lease ∈ net.leaseOf Sender.call c call.workflowId call.position,
      ¬ lease.Expired net.world.now) {e : TaskEnd V} (he : e ∈ net.ended) {v : V}
    (hv : e.result = .ok v) (hw : e.workflowId = call.workflowId)
    (hp : e.position = call.position) : False := by
  have hearly : call.phase.early = true := by rw [hphase]; rfl
  have hback : Move.giveBack c ∉ net.moves Sender.call call.workflowId call.position :=
    fun hmove => unsettled_of_early hshape hrecord hc hearly (settled_of_giveBack hmove)
  obtain ⟨lease, hlease⟩ :=
    outstanding_of_grant (grant_of_granted (hrecord.running c call now hc hphase)) hback
  have hforce := hlive lease hlease
  by_cases hsettled : net.Settled e.call
  · obtain ⟨row, hrow⟩ := h.stored e he v hv hsettled
    rw [hw, hp] at hrow
    exact hforce (h.spent _ _ row hrow c lease hlease)
  · obtain ⟨lease', hlease', hforce'⟩ := lease_of_unsettled hrecord h.timely he hsettled
    rw [hw, hp] at hlease'
    have hsame := (h.tenancy call.workflowId call.position).unique hlease' hforce' hlease hforce
    exact hshape.early c call hc hearly e he hsame

/-- A task that ends now and was not settled has its lease in force, as it must
end in time. -/
theorem live_of_ended (hshape : net.Shape serializer wire) (hrecord : net.Record)
    (hc : net.calls[c]? = some call) (hworkflow : runner.workflowId = call.workflowId)
    (hposition : runner.position = call.position)
    (ht : (net.take wire c call runner input turn).Timely) {now : Int}
    {result : Except Thrown V} (hphase : call.phase = .running now)
    (hinput : input = .taskSettled result) :
    ∀ lease ∈ net.leaseOf Sender.call c call.workflowId call.position,
      ¬ lease.Expired net.world.now := by
  have hmem : ({ call := c, workflowId := runner.workflowId, position := runner.position
                 result := result } : TaskEnd V) ∈
      (net.take wire c call runner input turn).ended := by
    refine List.mem_append_left _ ?_
    rw [hphase, hinput]
    exact List.mem_singleton_self _
  have hearly : call.phase.early = true := by rw [hphase]; rfl
  have hu : ¬ net.Settled c := unsettled_of_early hshape hrecord hc hearly
  rw [← hworkflow, ← hposition]
  exact ht _ hmem hu

/-- What a call returns is what its task, or the one that was stored, completed
with. -/
theorem ended_of_returned (hinverse : serializer.Inverse wire)
    (hshape : net.Shape serializer wire) (h : net.Safe serializer wire)
    (hc : net.calls[c]? = some call)
    (ha : ExecuteCall.Advances call.execute runner call.phase input turn)
    (hx : serializer.Explains call.phase input) {v : V} (hphase : turn.phase = .returned v) :
    ∃ e ∈ (net.take wire c call runner input turn).ended, e.workflowId = call.workflowId ∧
      e.position = call.position ∧ e.result = .ok v := by
  rcases ha.returned_cases hphase with ⟨value, k, hk, hinput⟩ | hresult
  · rw [hk, hinput] at hx
    obtain ⟨row, bytes, hrow, hvalue, rfl⟩ := h.deserializing c call value k hc hk
    obtain ⟨e, he, v', hw, hp, hv', hstored⟩ := h.rows _ _ row hrow
    rw [hvalue, Option.some.injEq] at hstored
    have heq : v = v' := by
      rw [show v = serializer.deserialize (.bytes bytes) from hx, hstored]
      exact hinverse v'
    exact ⟨e, ended_subset_take he, hw, hp, heq ▸ hv'⟩
  · exact ⟨_, ended_subset_take (hshape.result c call (.ok v) hc hresult), rfl, rfl, rfl⟩

theorem safe_take (hinverse : serializer.Inverse wire) (hshape : net.Shape serializer wire)
    (hrecord : net.Record) (h : net.Safe serializer wire) (hc : net.calls[c]? = some call)
    (hr : net.runners[call.runner]? = some runner) (hi : Prompts net c call l input)
    (ha : ExecuteCall.Advances call.execute runner call.phase input turn)
    (hx : serializer.Explains call.phase input)
    (ht : (net.take wire c call runner input turn).Timely)
    (htenancy : ∀ workflowId position,
      (net.take wire c call runner input turn).Tenancy Sender.call workflowId position) :
    (net.take wire c call runner input turn).Safe serializer wire := by
  obtain ⟨runner', hr', hworkflow, hposition⟩ := hshape.live c call hc ha.not_settled
  rw [hr, Option.some.injEq] at hr'
  subst hr'
  constructor
  case timely => exact ht
  case tenancy => exact htenancy
  case spent => exact h.spent
  case rows =>
    intro workflowId position row hrow
    obtain ⟨e, he, hrest⟩ := h.rows workflowId position row hrow
    exact ⟨e, ended_subset_take he, hrest⟩
  case stored =>
    intro e he v hv hsettled
    rcases mem_ended_take he with he | ⟨now, result, hphase, -, rfl⟩
    · exact h.stored e he v hv hsettled
    · have hearly : call.phase.early = true := by rw [hphase]; rfl
      have hu : ¬ net.Settled c := unsettled_of_early hshape hrecord hc hearly
      exact absurd hsettled hu
  case replays =>
    intro n rpc data bytes hn hdata hreply
    rcases append_cases hn with hn | ⟨-, hsent⟩
    · exact h.replays n rpc data bytes hn hdata hreply
    · obtain ⟨adapterCall, -, rfl⟩ := Option.map_eq_some_iff.mp hsent
      contradiction
  case deserializing =>
    intro c' call' value k hc' hphase
    rcases set_cases hc' with ⟨rfl, rfl⟩ | ⟨-, hc'⟩
    · obtain ⟨found, remaining, now, hk, hinput, hv⟩ := ha.deserializing_cases hphase
      obtain ⟨n, rpc, data, output, hn, -, hdata, hw, hp, hreply, houtput⟩ :=
        lease_outcome hshape hc hk hi hinput
      obtain ⟨bytes, hresponse, rfl⟩ := GrpcAdapter.leaseReply_value houtput hv
      have hreply' : rpc.reply =
          some (.ok (.leaseCheckpoint { response := some (.CheckpointValue bytes) })) := by
        rw [hreply, ← hresponse]
      obtain ⟨row, hrow, hvalue⟩ := h.replays n rpc data bytes hn hdata hreply'
      rw [hw, hp] at hrow
      exact ⟨row, bytes, hrow, hvalue, rfl⟩
    · exact h.deserializing c' call' value k hc' hphase
  case returned =>
    intro r hmem
    rcases List.mem_append.mp hmem with hnew | hold
    · have hreturn : Return.of c runner turn.phase = some r := Option.mem_toList.mp hnew
      unfold Return.of at hreturn
      split at hreturn
      · next v hphase =>
          cases hreturn
          rw [hworkflow, hposition]
          exact ended_of_returned hinverse hshape h hc ha hx hphase
      · contradiction
    · obtain ⟨e, he, hrest⟩ := h.returned r hold
      exact ⟨e, ended_subset_take he, hrest⟩
  case once =>
    have hlive {now : Int} {result : Except Thrown V} (hphase : call.phase = .running now)
        (hinput : input = .taskSettled result) :=
      live_of_ended hshape hrecord hc hworkflow hposition ht hphase hinput
    intro e he e' he' v v' hv hv' hw hp
    rcases mem_ended_take he with hold | ⟨now, result, hphase, hinput, rfl⟩
    · rcases mem_ended_take he' with hold' | ⟨now, result, hphase, hinput, rfl⟩
      · exact h.once e hold e' hold' v v' hv hv' hw hp
      · exact (completes_alone hshape hrecord h hc hphase (hlive hphase hinput) hold hv
          (hw.trans hworkflow) (hp.trans hposition)).elim
    · rcases mem_ended_take he' with hold' | ⟨now', result', hphase', hinput', rfl⟩
      · exact (completes_alone hshape hrecord h hc hphase (hlive hphase hinput) hold' hv'
          (hw.symm.trans hworkflow) (hp.symm.trans hposition)).elim
      · rw [hinput, Input.taskSettled.injEq] at hinput'
        rw [hinput']

end Take

/-! ## Runs -/

/-- A token stays until cleanup. -/
theorem token_kept {env : Env} (hf : env.fault = .none) {request : Request}
    (hspares : request.sparesRows = true) {w : World} {workflowId : String}
    (h : (w.fencingTokens workflowId).isSome = true) :
    ((request.handle env w).2.fencingTokens workflowId).isSome = true := by
  have hu : request ≠ .cleanUp := by
    intro heq
    rw [heq] at hspares
    contradiction
  rw [handle_fencingTokens hf w hu]
  split
  · rw [Function.update_apply]
    split
    · rfl
    · exact h
  · exact h

variable {l : NetLabel V}

theorem started_step {evictable : CachedLease → Int → Bool}
    (hs : Stepped evictable wire net l net') (hg : net.Guarded serializer l)
    (hshape : net.Shape serializer wire) (h : net.Started) :
    net'.Started := by
  cases hs with
  | ticked => exact ⟨h.runners, h.calls⟩
  | evicted hc he => exact ⟨h.runners, h.calls⟩
  | served hf hp =>
      exact ⟨fun runner hr => token_kept hf hg (h.runners runner hr),
        fun call hc => token_kept hf hg (h.calls call hc)⟩
  | @answered n env rpc call hf hn hc hp =>
      obtain ⟨_, -, hplace⟩ := hshape.sent n rpc hn
      have hspares := Request.sparesRows_of_leasePosition hplace
      exact ⟨fun runner hr => token_kept hf hspares (h.runners runner hr),
        fun call hc => token_kept hf hspares (h.calls call hc)⟩
  | @started workflowId name _ env token hf ht =>
      constructor
      case calls => exact fun call hc => token_kept hf rfl (h.calls call hc)
      case runners =>
        intro runner hr
        rcases List.mem_append.mp hr with hr | hr
        · exact token_kept hf rfl (h.runners runner hr)
        · obtain rfl := List.mem_singleton.mp hr
          have hu : GrpcAdapter.request wire (.startWorkflow workflowId name) ≠
            .cleanUp := nofun
          show (((GrpcAdapter.request wire (.startWorkflow workflowId name)).handle env
            net.world).2.fencingTokens workflowId).isSome = true
          rw [handle_fencingTokens hf net.world hu]
          simp [GrpcAdapter.request]
  | called hr =>
      constructor
      case runners => exact h.runners
      case calls =>
        intro call hc
        rcases List.mem_append.mp hc with hc | hc
        · exact h.calls call hc
        · obtain rfl := List.mem_singleton.mp hc
          exact h.runners _ (List.mem_of_getElem? hr)
  | @turned l c call runner input turn hc hr hi ht =>
      have hworkflow := (ExecuteCall.resume_cases ht).workflowId_eq
      constructor
      case runners =>
        intro runner' hr'
        rcases List.mem_or_eq_of_mem_set hr' with hold | rfl
        · exact h.runners runner' hold
        · rw [hworkflow]
          exact h.runners runner (List.mem_of_getElem? hr)
      case calls =>
        intro call' hc'
        rcases List.mem_or_eq_of_mem_set hc' with hold | rfl
        · exact h.calls call' hold
        · exact h.calls call (List.mem_of_getElem? hc)

/-- Admitted steps keep what the guard rests on. -/
theorem safe_step (hinverse : serializer.Inverse wire)
    (hs : Stepped leaseExpired wire net l net') (hg : net.Guarded serializer l)
    (ht : net'.Timely) (hshape : net.Shape serializer wire) (hrecord : net.Record)
    (hstarted : net.Started)
    (h : net.Safe serializer wire) : net'.Safe serializer wire := by
  have htenancy (workflowId : String) (position : Int) :
      net'.Tenancy Sender.call workflowId position := by
    refine tenancy_step hs (h.tenancy workflowId position) ?_ ?_
    · intro n env rpc call hl hn hc he hposition j lease hj hlease
      subst hl
      cases hs with
      | answered hf hn' hc' hp =>
          rw [hn, Option.some.injEq] at hn'
          subst hn'
          exact others_expired hshape hrecord h hn hp he hposition hj hlease
      | turned hc' hr hi ht' => cases hi
    · intro key entry _ _ hexpired _
      exact of_decide_eq_true hexpired
  cases hs with
  | @started workflowId name _ env token hf ht' =>
      have hq : Quiet net
          (net.serve env none (GrpcAdapter.request wire (.startWorkflow workflowId name))) :=
        .serve hf rfl rfl
      refine safe_quiet h ?_ ht htenancy
      exact ⟨hq.calls, hq.rpcs, hq.ended, hq.returned, hq.now, hq.rows, hq.leaseOf, hq.settled⟩
  | called hr => exact safe_addCall h ht htenancy
  | answered hf hn hc hp => exact safe_answer hf hshape hrecord hstarted h hn hp ht htenancy
  | turned hc hr hi ht' =>
      exact safe_take hinverse hshape hrecord h hc hr hi (ExecuteCall.resume_cases ht')
        (explains_of_guarded hg hc hi) ht htenancy
  | served hf hp => exact safe_quiet h (.serve hf hp hg) ht htenancy
  | ticked =>
      refine safe_quiet h ⟨rfl, rfl, rfl, rfl, ?_, rfl, fun _ _ _ => rfl,
        fun _ h => h⟩ ht htenancy
      simp [World.tick]
  | evicted hc he =>
      exact safe_quiet h ⟨rfl, rfl, rfl, rfl, le_refl _, rfl, fun _ _ _ => rfl, fun _ h => h⟩ ht
        htenancy

/-- All of it holds in every state of an admitted run. -/
theorem safe_of_reachable (hinverse : serializer.Inverse wire)
    (hr : Reachable (step leaseExpired wire) (Admitted serializer wire) initial net) :
    net.Shape serializer wire ∧ net.Record ∧ net.Started ∧ net.Safe serializer wire := by
  refine hr.invariant (fun net => net.Shape serializer wire ∧ net.Record ∧ net.Started ∧
    net.Safe serializer wire) ?_ ?_
  · intro net hi
    refine ⟨shape_initial serializer wire hi, record_initial hi, ?_,
      safe_initial serializer wire hi⟩
    obtain ⟨now, -, rfl⟩ := hi
    constructor <;> simp
  · intro net l net' h hadmitted hs
    obtain ⟨hshape, hrecord, hstarted, hsafe⟩ := h
    obtain ⟨hg, ht⟩ := hadmitted
    have hstepped := step_cases hs
    exact ⟨shape_step hstepped hg hshape, record_step hstepped hshape hrecord,
      started_step hstepped hg hshape hstarted,
      safe_step hinverse hstepped hg (ht net' hs) hshape hrecord hstarted hsafe⟩

end Steps

/-! ## The guard -/

/-- The tasks at a position that completed. -/
def completions (net : Net V) (workflowId : String) (position : Int) : List (TaskEnd V) :=
  net.ended.filter fun e => e.workflowId = workflowId ∧ e.position = position ∧ e.result.isOk

/-- A row is stored whose value is `v`, deserialized. -/
def Stores (serializer : Serializer V) (net : Net V) (workflowId : String) (position : Int)
    (v : V) : Prop :=
  ∃ row bytes, net.world.checkpoints workflowId position = some row ∧ row.value = some bytes ∧
    serializer.deserialize (.bytes bytes) = v

/-- A task ended whose checkpoint or release is still to be handled, in time. -/
def Pending (net : Net V) (e : TaskEnd V) : Prop :=
  ¬ net.Settled e.call ∧ ∃ lease,
    net.leaseOf Sender.call e.call e.workflowId e.position = some lease ∧
      ¬ lease.Expired net.world.now

/-- The parallelism guard at a position. -/
structure GuardedAt (serializer : Serializer V) (net : Net V) (workflowId : String)
    (position : Int) : Prop where
  /-- The task completes at most once, over all workers. -/
  once : (net.completions workflowId position).length ≤ 1
  /-- Its result is stored, or its checkpoint is still to be handled. -/
  stored : ∀ e ∈ net.completions workflowId position, ∀ v, e.result = .ok v →
    net.Stores serializer workflowId position v ∨ net.Pending e
  /-- Nothing else is stored. -/
  rows : ∀ row, net.world.checkpoints workflowId position = some row →
    ∃ e v, net.completions workflowId position = [e] ∧ e.result = .ok v ∧
      net.Stores serializer workflowId position v
  /-- Every `execute` that returned, returned the one result. -/
  returned : ∀ r ∈ net.returned, r.workflowId = workflowId → r.position = position →
    ∃ e, net.completions workflowId position = [e] ∧ e.result = .ok r.value

section Completions

variable {serializer : Serializer V} {wire : Wire} {net : Net V} {workflowId : String}
  {position : Int} {e : TaskEnd V}

theorem mem_completions : e ∈ net.completions workflowId position ↔
    e ∈ net.ended ∧ e.workflowId = workflowId ∧ e.position = position ∧
      ∃ v, e.result = .ok v := by
  rw [completions, List.mem_filter, decide_eq_true_iff]
  cases e.result <;> simp [Except.isOk, Except.toBool]

theorem completions_length_le_one (hshape : net.Shape serializer wire)
    (h : net.Safe serializer wire) : (net.completions workflowId position).length ≤ 1 := by
  have hnodup : (net.completions workflowId position).Nodup :=
    (hshape.endedNodup.of_map _).filter _
  have hsame : ∀ e ∈ net.completions workflowId position,
      ∀ e' ∈ net.completions workflowId position, e = e' := by
    intro e he e' he'
    obtain ⟨hmem, hw, hp, v, hv⟩ := mem_completions.mp he
    obtain ⟨hmem', hw', hp', v', hv'⟩ := mem_completions.mp he'
    exact h.once e hmem e' hmem' v v' hv hv' (hw.trans hw'.symm) (hp.trans hp'.symm)
  match hl : net.completions workflowId position with
  | [] => simp
  | [_] => simp
  | a :: b :: rest =>
      rw [hl] at hnodup hsame
      have hab : a = b := hsame a (by simp) b (by simp)
      simp [hab] at hnodup

theorem completions_eq (hlen : (net.completions workflowId position).length ≤ 1)
    (he : e ∈ net.completions workflowId position) :
      net.completions workflowId position = [e] := by
  have hpos : 0 < (net.completions workflowId position).length := List.length_pos_of_mem he
  have hone : (net.completions workflowId position).length = 1 := by omega
  obtain ⟨a, ha⟩ := List.length_eq_one_iff.mp hone
  rw [ha] at he ⊢
  rw [List.mem_singleton.mp he]

end Completions

/-- **Parallelism guard.**  Any number of workers run workflows of the same ids,
in any order of their requests, with replies lost and workers crashing.  Where
every task that completes or rejects has its checkpoint or release handled
before its lease expires, the task at a position completes at most once, and
every `execute` that returns gives the one value stored there. -/
theorem parallelism_guard {serializer : Serializer V} {wire : Wire}
    (hinverse : serializer.Inverse wire) {net : Net V}
    (hr : Reachable (step leaseExpired wire) (Admitted serializer wire) initial net)
    (workflowId : String) (position : Int) : net.GuardedAt serializer workflowId position := by
  obtain ⟨hshape, hrecord, -, h⟩ := safe_of_reachable hinverse hr
  have hlen : (net.completions workflowId position).length ≤ 1 :=
    completions_length_le_one hshape h
  -- A row holds the serialized result of the task that completed.
  have hstores {e : TaskEnd V} {v : V} {row : Checkpoint}
      (hrow : net.world.checkpoints workflowId position = some row)
      (he : e ∈ net.completions workflowId position) (hv : e.result = .ok v) :
      net.Stores serializer workflowId position v := by
    obtain ⟨hmem, hw, hp, -⟩ := mem_completions.mp he
    obtain ⟨e', he', v', hw', hp', hv', hbytes⟩ := h.rows workflowId position row hrow
    have hsame := h.once e hmem e' he' v v' hv hv' (hw.trans hw'.symm) (hp.trans hp'.symm)
    rw [hsame, hv', Except.ok.injEq] at hv
    exact ⟨row, _, hrow, hbytes, hv ▸ hinverse v'⟩
  constructor
  case once => exact hlen
  case stored =>
    intro e he v hv
    obtain ⟨hmem, rfl, rfl, -⟩ := mem_completions.mp he
    by_cases hsettled : net.Settled e.call
    · obtain ⟨row, hrow⟩ := h.stored e hmem v hv hsettled
      exact .inl (hstores hrow he hv)
    · exact .inr ⟨hsettled, lease_of_unsettled hrecord h.timely hmem hsettled⟩
  case rows =>
    intro row hrow
    obtain ⟨e, hmem, v, hw, hp, hv, -⟩ := h.rows workflowId position row hrow
    have he : e ∈ net.completions workflowId position :=
      mem_completions.mpr ⟨hmem, hw, hp, v, hv⟩
    exact ⟨e, v, completions_eq hlen he, hv, hstores hrow he hv⟩
  case returned =>
    intro r hreturned hw hp
    obtain ⟨e, hmem, hw', hp', hv⟩ := h.returned r hreturned
    have he : e ∈ net.completions workflowId position :=
      mem_completions.mpr ⟨hmem, hw'.trans hw, hp'.trans hp, r.value, hv⟩
    exact ⟨e, completions_eq hlen he, hv⟩

end Net

/-! ## A run -/

/-- Bytes are stored as they are. -/
def plain : Serializer Bytes where
  serialize := .bytes
  deserialize
    | .bytes bytes => bytes
    | .text _ => []

theorem plain_inverse (wire : Wire) : plain.Inverse wire := fun _ => rfl

def pay : ExecuteCall :=
  { idempotencyKey := "k", options := { leaseTimeout := some 1000, onAbort := none } }

/-- Two workers run a step.  The first is granted the lease and checkpoints its
result; the reply is lost and it checkpoints again.  The second one polls, and
returns the first one's result. -/
def twoWorkers : List (NetLabel Bytes) :=
  [.start "pay" none none (.calm "" true), .execute 0 pay, .handle 0 (.calm "" true),
    .start "pay" none none (.calm "" true), .execute 1 pay, .handle 1 (.calm "" true),
    .deliver 0 0, .deliver 1 0, .resume 0 (.taskSettled (.ok [7])),
    .resume 0 (.serialized (.ok (.bytes [7])) 0), .handle 2 (.calm "" true),
    .fail 0 { details := "", message := "connection lost" } 1, .resume 1 .wake,
    .handle 4 (.calm "" true), .deliver 1 0, .resume 1 (.deserialized (.ok [7])),
    .handle 3 (.calm "" true), .deliver 0 1]

theorem two_workers_guarded :
    ∃ net, execOk (Net.step leaseExpired silentWire) (Net.Admitted plain silentWire)
        (Net.start Bytes) twoWorkers = some net ∧
      (net.completions "pay" 0).map TaskEnd.call = [0] ∧
      net.returned.map Return.call = [1] ∧ net.GuardedAt plain "pay" 0 := by
  obtain ⟨net, hnet⟩ : ∃ net, execOk (Net.step leaseExpired silentWire)
      (Net.Admitted plain silentWire) (Net.start Bytes) twoWorkers = some net :=
    Option.isSome_iff_exists.mp (by decide +kernel)
  have hended := eq_of_outcome hnet (fun net => (net.completions "pay" 0).map TaskEnd.call)
    (a := [0]) (by decide +kernel)
  have hreturned := eq_of_outcome hnet (fun net => net.returned.map Return.call)
    (a := [1]) (by decide +kernel)
  have hr : Reachable (Net.step leaseExpired silentWire) (Net.Admitted plain silentWire)
      Net.initial net := .of_execOk (.start (Net.initial_start Bytes)) hnet
  exact ⟨net, hnet, hended, hreturned,
    Net.parallelism_guard (plain_inverse silentWire) hr "pay" 0⟩

end IdempotentTransformer
