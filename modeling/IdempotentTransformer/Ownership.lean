import IdempotentTransformer.Network

/-!
# IdempotentTransformer.Ownership

Who ends a lease.

`handle_checkpoint`, before it looks at any token, and `release_checkpoint`
take away whatever lease is cached for the position, so a worker that comes
late ends the lease of another.  As long as every checkpoint and release is
handled while the sender's own lease is in force, or none is, and no lease
is cached for less than its life, a lease ends only by its holder or by
time (`lease_ended_by_holder`).
-/

namespace IdempotentTransformer

open Library

/-! ## Times to live -/

/-- A lease is cached for its whole life unless it is longer than half a
minute and no whole number of seconds. -/
theorem leaseTimeout_le_cacheTtl {leaseTimeout : Int}
    (h : leaseTimeout ≤ 30000 ∨ 1000 ∣ leaseTimeout) :
    leaseTimeout ≤ 1000 * cacheTtl leaseTimeout := by
  unfold cacheTtl minimumCacheTtl
  rcases h with hle | ⟨seconds, rfl⟩
  · omega
  · rw [Int.mul_tdiv_cancel_left seconds (by decide)]
    omega

/-- A cached lease as a grant leaves it, with a time to live no shorter than
its life. -/
structure CachedLease.Kept (entry : CachedLease) : Prop where
  putAt : entry.putAt = entry.lease.createdAt
  life : entry.lease.leaseTimeout ≤ 1000 * entry.ttl

/-- Once its time to live has passed, such a lease has expired. -/
theorem CachedLease.Kept.expired {entry : CachedLease} (h : entry.Kept) {now : Int}
    (hnow : 0 ≤ now) (hp : ttlPassed entry now = true) : entry.lease.Expired now := by
  have hput := h.putAt
  have hlife := h.life
  unfold ttlPassed at hp
  rw [decide_eq_true_eq] at hp
  exact .of_add_le hnow (by omega)

namespace Net

variable {V : Type}

/-! ## The condition -/

/-- The worker's own lease of the position is in force, or nobody's is. -/
def MayEnd (net : Net V) (runner : Nat) (workflowId : String) (position : Int) : Prop :=
  (∃ lease ∈ net.leaseOf Sender.runner runner workflowId position,
      ¬ lease.Expired net.world.now) ∨
    net.world.activeLease workflowId position = none

instance (net : Net V) (runner : Nat) (workflowId : String) (position : Int) :
    Decidable (net.MayEnd runner workflowId position) :=
  inferInstanceAs (Decidable (_ ∨ _))

/-- When the handling of a request of a worker is careful. -/
def CarefulWith (net : Net V) (runner : Nat) : Request → Prop
  | .leaseCheckpoint data => data.leaseTimeout ≤ 30000 ∨ 1000 ∣ data.leaseTimeout
  | .checkpoint data => net.MayEnd runner data.workflowId data.position
  | .releaseCheckpoint data => net.MayEnd runner data.workflowId data.position
  | _ => True

instance (net : Net V) (runner : Nat) (request : Request) :
    Decidable (net.CarefulWith runner request) :=
  match request with
  | .leaseCheckpoint _ => inferInstanceAs (Decidable (_ ∨ _))
  | .checkpoint _ => inferInstanceAs (Decidable (MayEnd ..))
  | .releaseCheckpoint _ => inferInstanceAs (Decidable (MayEnd ..))
  | .workflowStart _ => .isTrue trivial
  | .completeWorkflow _ => .isTrue trivial
  | .workflowStatus _ => .isTrue trivial
  | .generateIdempotencyKey _ => .isTrue trivial
  | .cleanUp => .isTrue trivial

/-- A careful step: leases are asked for at most half a minute or a whole
number of seconds, and a checkpoint or release is handled while the lease of
its worker is in force, or while no lease is. -/
def Careful (net : Net V) : NetLabel V → Prop
  | .handle n _ => ∀ rpc ∈ net.rpcs[n]?, ∀ call ∈ net.calls[rpc.call]?,
      net.CarefulWith call.runner rpc.request
  | _ => True

instance (net : Net V) (l : NetLabel V) : Decidable (net.Careful l) :=
  match l with
  | .handle _ _ => Option.decidableForallMem _
  | .start .. => .isTrue trivial
  | .execute .. => .isTrue trivial
  | .deliver .. => .isTrue trivial
  | .fail .. => .isTrue trivial
  | .resume .. => .isTrue trivial
  | .serve .. => .isTrue trivial
  | .tick .. => .isTrue trivial
  | .evict .. => .isTrue trivial

/-! ## The property -/

/-- The lease of a position, with the worker it was granted to last. -/
def held (net : Net V) (workflowId : String) (position : Int) :
    Option (LeasedCheckpointValue × Option Nat) :=
  (net.world.leaseAt workflowId position).map fun lease =>
    (lease, holder (net.moves Sender.runner workflowId position))

/-- If the step removes or replaces a lease in force, it is the handling of a
checkpoint or release of the worker the lease was granted to. -/
def EndedByHolder (net : Net V) (l : NetLabel V) (net' : Net V) (workflowId : String)
    (position : Int) : Prop :=
  ∀ lease, net.world.leaseAt workflowId position = some lease →
    ¬ lease.Expired net.world.now →
    net'.held workflowId position ≠ net.held workflowId position →
    ∃ n env rpc call, l = .handle n env ∧ net.rpcs[n]? = some rpc ∧
      net.calls[rpc.call]? = some call ∧ rpc.request.endsLease = true ∧
      rpc.request.leasePosition = some (workflowId, position) ∧
      holder (net.moves Sender.runner workflowId position) = some call.runner ∧
      net.leaseOf Sender.runner call.runner workflowId position = some lease

/-! ## The invariant -/

/-- What holds of careful runs. -/
structure Owned (net : Net V) : Prop where
  clock : 0 ≤ net.world.now
  tenancy : ∀ workflowId position, net.Tenancy Sender.runner workflowId position
  kept : ∀ workflowId position entry,
    net.world.cache (generateLeasedCheckpointKey workflowId position) = some entry → entry.Kept

theorem owned_initial {net : Net V} (h : net.initial) : net.Owned := by
  obtain ⟨now, hnow, rfl⟩ := h
  constructor
  · exact hnow
  · exact fun _ _ => Exclusive.nil _ _
  · intro _ _ _ hc
    contradiction

variable {wire : Wire} {net net' : Net V} {l : NetLabel V}

/-- The clock does not go back. -/
theorem now_le_of_stepped {evictable : CachedLease → Int → Bool}
    (hs : Stepped evictable wire net l net') : net.world.now ≤ net'.world.now := by
  cases hs with
  | started hf ht => exact le_of_eq (handle_now _ _ net.world).symm
  | answered hf hn hc hp => exact le_of_eq (handle_now _ _ net.world).symm
  | served hf hp => exact le_of_eq (handle_now _ _ net.world).symm
  | called hr => exact le_refl _
  | turned hc hr hi ht => exact le_refl _
  | ticked => simp [World.tick]
  | evicted hc he => exact le_refl _

/-- The two ways a careful request may end a lease. -/
theorem mayEnd_of_careful {n : Nat} {env : Env} (hc : net.Careful (.handle n env)) {rpc : Rpc}
    (hn : net.rpcs[n]? = some rpc) {call : Call V} (hcall : net.calls[rpc.call]? = some call)
    {workflowId : String} {position : Int} (he : rpc.request.endsLease = true)
    (hp : rpc.request.leasePosition = some (workflowId, position)) :
    net.MayEnd call.runner workflowId position := by
  have hcareful := hc rpc hn call hcall
  cases hrequest : rpc.request with
  | checkpoint data =>
      rw [hrequest] at hcareful hp
      cases hp
      exact hcareful
  | releaseCheckpoint data =>
      rw [hrequest] at hcareful hp
      cases hp
      exact hcareful
  | _ =>
      rw [hrequest] at he
      contradiction

/-- A careful step keeps the cached leases as they were granted. -/
theorem kept_step (hs : Stepped ttlPassed wire net l net') (hc : net.Careful l) (h : net.Owned)
    {workflowId : String} {position : Int} {entry : CachedLease}
    (hentry : net'.world.cache (generateLeasedCheckpointKey workflowId position) = some entry) :
    entry.Kept := by
  have served (request : Request) (env : Env) (hf : env.fault = .none)
      (hg : ∀ data, request = .leaseCheckpoint data →
        data.leaseTimeout ≤ 30000 ∨ 1000 ∣ data.leaseTimeout)
      (hentry : (request.handle env net.world).2.cache
        (generateLeasedCheckpointKey workflowId position) = some entry) : entry.Kept := by
    rcases handle_cache_cases hf net.world request workflowId position with
      ⟨-, -, hcache⟩ | ⟨data, hdata, -, -, -, hcache⟩ | ⟨hcache, -⟩
    · rw [hcache] at hentry
      contradiction
    · rw [hcache, Option.some.injEq] at hentry
      rw [← hentry]
      exact ⟨rfl, leaseTimeout_le_cacheTtl (hg data hdata)⟩
    · rw [hcache] at hentry
      exact h.kept workflowId position entry hentry
  cases hs with
  | called hr => exact h.kept _ _ _ hentry
  | turned hc hr hi ht => exact h.kept _ _ _ hentry
  | ticked => exact h.kept _ _ _ hentry
  | started hf ht =>
      refine served _ _ hf (fun data hd => ?_) hentry
      rw [GrpcAdapter.request] at hd
      contradiction
  | served hf hp =>
      refine served _ _ hf (fun data hd => ?_) hentry
      rw [hd] at hp
      contradiction
  | @answered n env rpc call hf hn hcall hp =>
      refine served _ _ hf (fun data hd => ?_) hentry
      have hcareful := hc rpc hn call hcall
      rwa [hd] at hcareful
  | evicted hcached he =>
      rw [World.setCache_cache] at hentry
      split at hentry
      · contradiction
      · exact h.kept _ _ _ hentry

/-- Careful steps keep the invariant. -/
theorem owned_step (hs : Stepped ttlPassed wire net l net') (hc : net.Careful l)
    (h : net.Owned) :
    net'.Owned := by
  constructor
  · exact le_trans h.clock (now_le_of_stepped hs)
  · intro workflowId position
    refine tenancy_step hs (h.tenancy workflowId position) ?_ ?_
    · intro n env rpc call hl hn hcall he hp j lease hj ho
      have htenancy := h.tenancy workflowId position
      have hends := mayEnd_of_careful (hl ▸ hc) hn hcall he hp
      have hdead :=
        htenancy.others (i := call.runner) (hends.imp_right fun hnone lease hl hlive =>
        hlive (World.activeLease_eq_none_iff.mp hnone lease hl)) hj ho
      exact not_not.mp hdead
    · intro key entry _ hcached hpassed hkey
      exact (h.kept workflowId position entry (hkey ▸ hcached)).expired h.clock hpassed
  · intro workflowId position entry hentry
    exact kept_step hs hc h hentry

/-- **A lease is ended only by its holder or by time** in every step of every
careful run. -/
theorem lease_ended_by_holder (hr : Reachable (step ttlPassed wire) Careful initial net)
    (hc : net.Careful l) (hs : step ttlPassed wire net l = some net') (workflowId : String)
    (position : Int) : net.EndedByHolder l net' workflowId position := by
  have h : net.Owned := hr.invariant Owned (fun _ => owned_initial)
    fun _ _ _ h hc hs => owned_step (step_cases hs) hc h
  intro lease hlease hlive hchanged
  have held_eq {moves : List (Move Nat LeasedCheckpointValue)}
      (hmoves : net'.moves Sender.runner workflowId position = moves)
      (heq : moves = net.moves Sender.runner workflowId position)
      (hl : net'.world.leaseAt workflowId position = net.world.leaseAt workflowId position) :
      net'.held workflowId position = net.held workflowId position := by
    unfold held
    rw [hl, hmoves, heq]
  cases step_cases hs with
  | called hr => exact absurd rfl hchanged
  | turned hcall hr hi ht => exact absurd rfl hchanged
  | ticked => exact absurd rfl hchanged
  | started hf ht =>
      obtain ⟨hmoves, hl⟩ :=
        serve_elsewhere hf net (.workflowStart _) Sender.runner workflowId position rfl
      exact absurd (held_eq hmoves rfl hl) hchanged
  | served hf hp =>
      obtain ⟨hmoves, hl⟩ := serve_elsewhere hf net _ Sender.runner workflowId position hp
      exact absurd (held_eq hmoves rfl hl) hchanged
  | @answered n env rpc call hf hn hcall hp =>
      rcases serve_tenancy hf net { call := rpc.call, runner := call.runner } rpc.request
        Sender.runner workflowId position with
        ⟨he, hposition, -, -⟩ | ⟨data, hdata, rfl, rfl, hg, -, -⟩ | ⟨-, hmoves, hl⟩
      · rcases mayEnd_of_careful hc hn hcall he hposition with ⟨own, ho, hown⟩ | hnone
        · obtain ⟨hcached, hholder⟩ := h.tenancy workflowId position call.runner own ho hown
          rw [hlease, Option.some.injEq] at hcached
          exact ⟨n, env, rpc, call, rfl, hn, hcall, he, hposition, hholder, hcached ▸ ho⟩
        · exact absurd (World.activeLease_eq_none_iff.mp hnone lease hlease) hlive
      · rw [hdata, handle_leaseCheckpoint_granted_iff hf] at hg
        exact absurd (World.activeLease_eq_none_iff.mp hg.2.1 lease hlease) hlive
      · exact absurd (held_eq hmoves rfl hl) hchanged
  | @evicted key entry hcached he =>
      by_cases hkey : key = generateLeasedCheckpointKey workflowId position
      · have hexpired := (h.kept workflowId position entry (hkey ▸ hcached)).expired h.clock he
        have hentry : entry.lease = lease := by
          simpa [World.leaseAt, ← hkey, hcached] using hlease
        exact absurd (hentry ▸ hexpired) hlive
      · refine absurd (held_eq rfl rfl ?_) hchanged
        simp [World.leaseAt, World.setCache_cache, Ne.symm hkey]

end Net

/-! ## Concrete runs -/

/-- The server handles a request. -/
def handles (n : Nat) : NetLabel String := .handle n (.calm "" true)

/-- A worker starts the workflow. -/
def startsPay : NetLabel String := .start "pay" none none (.calm "" true)

/-- A worker runs a step, asking for its lease for one second. -/
def paysFor (runner : Nat) : NetLabel String :=
  .execute runner
    { idempotencyKey := "k", options := { leaseTimeout := some 1000, onAbort := none } }

/-- The task of a call rejects. -/
def rejects (c : Nat) : NetLabel String := .resume c (.taskSettled (.error (.error "declined")))

/-- A worker is granted the first position; its task rejects and the release
is sent. -/
def ownRelease : List (NetLabel String) :=
  [startsPay, paysFor 0, handles 0, .deliver 0 0, rejects 0]

/-- A worker is granted the first position, its lease expires, and a second
worker is granted the position; then the first one's task rejects and the
release is sent. -/
def lateRelease : List (NetLabel String) :=
  [startsPay, paysFor 0, handles 0, .deliver 0 0, .tick 1000, startsPay, paysFor 1, handles 1,
    rejects 0]

/-- The release ends the worker's own lease. -/
theorem own_release_ends_lease :
    ∃ net net', execOk (Net.step ttlPassed silentWire) Net.Careful
      (Net.start String) ownRelease =
        some net ∧
      Net.step ttlPassed silentWire net (handles 1) = some net' ∧
      net.world.leaseAt "pay" 0 = some { leaseTimeout := 1000, createdAt := 0 } ∧
      net'.world.leaseAt "pay" 0 = none ∧ net.EndedByHolder (handles 1) net' "pay" 0 := by
  obtain ⟨net, hnet⟩ : ∃ net, execOk (Net.step ttlPassed silentWire) Net.Careful
    (Net.start String)
      ownRelease = some net := Option.isSome_iff_exists.mp (by decide +kernel)
  obtain ⟨net', hnet'⟩ : ∃ net', Net.step ttlPassed silentWire net (handles 1) = some net' :=
    Option.isSome_iff_exists.mp (eq_of_outcome hnet
      (fun net => (Net.step ttlPassed silentWire net (handles 1)).isSome) (by decide +kernel))
  have hcareful : decide (net.Careful (handles 1)) = true :=
    eq_of_outcome hnet (fun net => decide (net.Careful (handles 1))) (by decide +kernel)
  have hended : (Net.step ttlPassed silentWire net (handles 1)).map
      (fun net' => net'.world.leaseAt "pay" 0) = some none :=
    eq_of_outcome hnet (fun net => (Net.step ttlPassed silentWire net (handles 1)).map
      fun net' => net'.world.leaseAt "pay" 0) (by decide +kernel)
  exact ⟨net, net', hnet, hnet',
    eq_of_outcome hnet (fun net => net.world.leaseAt "pay" 0) (by decide +kernel),
    eq_of_outcome hnet' (fun net' => net'.world.leaseAt "pay" 0) hended,
    Net.lease_ended_by_holder (.of_execOk (.start (Net.initial_start String)) hnet)
      (of_decide_eq_true hcareful) hnet' "pay" 0⟩

/-- The release of the first worker ends the lease of the second. -/
theorem late_release_ends_lease :
    ∃ net net', exec (Net.step ttlPassed silentWire) (Net.start String) lateRelease = some net ∧
      Reachable (Net.step ttlPassed silentWire) anyStep Net.initial net ∧
      Net.step ttlPassed silentWire net (handles 2) = some net' ∧
      net.world.leaseAt "pay" 0 = some { leaseTimeout := 1000, createdAt := 1000 } ∧
      net.world.now = 1000 ∧ net'.world.leaseAt "pay" 0 = none ∧
      ¬ net.EndedByHolder (handles 2) net' "pay" 0 := by
  obtain ⟨net, hnet⟩ :
    ∃ net, exec (Net.step ttlPassed silentWire) (Net.start String) lateRelease =
      some net := Option.isSome_iff_exists.mp (by decide +kernel)
  obtain ⟨net', hnet'⟩ : ∃ net', Net.step ttlPassed silentWire net (handles 2) = some net' :=
    Option.isSome_iff_exists.mp (eq_of_outcome hnet
      (fun net => (Net.step ttlPassed silentWire net (handles 2)).isSome) (by decide +kernel))
  have hlease := eq_of_outcome hnet (fun net => net.world.leaseAt "pay" 0)
    (a := some { leaseTimeout := 1000, createdAt := 1000 }) (by decide +kernel)
  have hnow := eq_of_outcome hnet (fun net => net.world.now) (a := 1000) (by decide +kernel)
  have hheld := eq_of_outcome hnet (fun net => holder (net.moves Sender.runner "pay" 0))
    (a := some 1) (by decide +kernel)
  have hsender := eq_of_outcome hnet
    (fun net => net.rpcs[2]?.bind fun rpc => net.calls[rpc.call]?.map Call.runner)
    (a := some 0) (by decide +kernel)
  have hended : net'.world.leaseAt "pay" 0 = none :=
    eq_of_outcome hnet' (fun net' => net'.world.leaseAt "pay" 0)
      (eq_of_outcome hnet (fun net => (Net.step ttlPassed silentWire net (handles 2)).map
        fun net' => net'.world.leaseAt "pay" 0) (by decide +kernel))
  refine ⟨net, net', hnet, .of_exec (.start (Net.initial_start String)) hnet,
    hnet', hlease, hnow, hended, fun h => ?_⟩
  have hlive : ¬ LeasedCheckpointValue.Expired { leaseTimeout := 1000, createdAt := 1000 }
      net.world.now := by
    rw [hnow]
    decide
  have hchanged : net'.held "pay" 0 ≠ net.held "pay" 0 := by
    simp [Net.held, hended, hlease]
  obtain ⟨n, env, rpc, call, hl, hn, hcall, -, -, hholder, -⟩ := h _ hlease hlive hchanged
  cases hl
  simp only [hn, Option.bind_some, hcall, Option.map_some, Option.some.injEq] at hsender
  rw [hheld, hsender] at hholder
  contradiction

end IdempotentTransformer
