import IdempotentTransformer.Server

/-!
# IdempotentTransformer.Visibility

How long a granted lease can be seen.

A lease runs for `lease_timeout` milliseconds, but the cache is asked to
keep it for whole seconds, at least thirty: `cacheTtl` rounds down.  A lease
is visible for its whole life exactly if that covers it
(`lease_visible_iff`), and if no row comes to stand at its position.
-/

namespace IdempotentTransformer

open Library

/-- The time to live covers the lease of a positive timeout exactly if the
timeout is short or in whole seconds. -/
theorem covers_iff {leaseTimeout : Int} (h : 0 < leaseTimeout) :
    leaseTimeout ≤ 1000 * cacheTtl leaseTimeout ↔ leaseTimeout ≤ 30000 ∨
      leaseTimeout % 1000 = 0 := by
  rw [cacheTtl, minimumCacheTtl, Int.tdiv_eq_ediv_of_nonneg h.le]
  omega

/-- After its time, or at the end of all time, a lease has expired. -/
theorem LeasedCheckpointValue.Expired.of_le {leased : LeasedCheckpointValue} {now : Int}
    (hcreated : 0 ≤ leased.createdAt) (htimeout : 0 ≤ leased.leaseTimeout)
    (h : min (leased.createdAt + leased.leaseTimeout) i64Max ≤ now) : leased.Expired now := by
  have hmin : i64Min ≤ now := by unfold i64Min i64Max at *; omega
  refine expired_iff.mpr (max_le hmin ?_)
  rw [min_comm]
  exact h

/-- A lease request that finds no row but a lease in force is told to wait. -/
theorem handle_leaseCheckpoint_of_active {env : Env} (hf : env.fault = .none) {w : World}
    {data : LeaseCheckpointInput} {leased : LeasedCheckpointValue}
    (hrow : w.checkpoints data.workflowId data.position = none)
    (hleased : w.leaseAt data.workflowId data.position = some leased)
    (hlive : ¬ leased.Expired w.now) :
    ((Request.leaseCheckpoint data).handle env w).1 = .ok (.leaseCheckpoint
      { response := some (.RemainingLeaseTimeout (remainingLeaseTimeout leased w.now)) }) := by
  have hactive : w.activeLease data.workflowId data.position = some leased := by
    simp [World.activeLease, hleased, Option.filter, hlive]
  rw [handle_leaseCheckpoint, run_handleLeaseCheckpoint hf, hrow, hactive]
  rfl

namespace Server

variable {s : Server} {workflowId : String} {position : Int} {lease : LeasedCheckpointValue}

/-- No request of the stretch released or checkpointed the position. -/
def Untouched (stretch : List Handled) (workflowId : String) (position : Int) : Prop :=
  ∀ h ∈ stretch, h.request.leasePosition = some (workflowId, position) →
    h.request.endsLease = false

/-- The lease was granted for the position and neither released nor checkpointed
since, and its time is not up.  (No clock shows `i64::MAX`.) -/
def Runs (s : Server) (workflowId : String) (position : Int) (lease : LeasedCheckpointValue) :
    Prop :=
  (∃ later h earlier token, s.history = later ++ h :: earlier ∧
    h.grant workflowId position = some (token, lease) ∧ Untouched later workflowId position) ∧
  s.world.now < lease.createdAt + lease.leaseTimeout ∧ s.world.now < i64Max

/-- Every lease request for the position, whatever its token, is told to wait. -/
def Waits (s : Server) (workflowId : String) (position : Int) : Prop :=
  ∀ env (data : LeaseCheckpointInput), env.fault = .none → data.workflowId = workflowId →
    data.position = position →
      ∃ remaining, ((Request.leaseCheckpoint data).handle env s.world).1 =
      .ok (.leaseCheckpoint { response := some (.RemainingLeaseTimeout remaining) })

theorem grant_eq_some {h : Handled} {token : Int}
    (hg : h.grant workflowId position = some (token, lease)) :
    ∃ data, h.request = .leaseCheckpoint data ∧ data.workflowId = workflowId ∧
      data.position = position ∧ h.reply = granted ∧
      lease = (grantedLease data.leaseTimeout h.before.now).lease := by
  unfold Handled.grant at hg
  split at hg
  · next data hrequest =>
      split at hg
      · next hmatch =>
          cases hg
          exact ⟨data, hrequest, hmatch.1, hmatch.2.1, hmatch.2.2, rfl⟩
      · contradiction
  · contradiction

/-- **A lease the cache keeps for its whole life is cached while it runs.** -/
theorem cache_of_runs (hr : s.Reached ttlPassed) (hrun : s.Runs workflowId position lease)
    (hcovers : lease.leaseTimeout ≤ 1000 * cacheTtl lease.leaseTimeout) :
    s.world.cache (generateLeasedCheckpointKey workflowId position) =
      some (grantedLease lease.leaseTimeout lease.createdAt) := by
  obtain ⟨⟨later, h, earlier, token, hsplit, hgrant, huntouched⟩, hnow, hmax⟩ := hrun
  induction hr generalizing later with
  | start hi =>
      obtain ⟨now, rfl⟩ := hi
      simp at hsplit
  | @step t t' l ht _ hs ih =>
      rcases step_cases hs with
        ⟨request, env, rfl, hf, rfl⟩ | ⟨elapsed, rfl, rfl⟩ | ⟨key, entry, rfl,
          hentry, hevict, rfl⟩
      · cases later with
        | nil =>
            simp only [record, List.nil_append, List.cons.injEq] at hsplit
            obtain ⟨rfl, rfl⟩ := hsplit
            obtain ⟨data, hrequest, rfl, rfl, hreply, rfl⟩ := grant_eq_some hgrant
            simp only at hrequest hreply
            subst hrequest
            simp only [record]
            rw [handle_leaseCheckpoint_of_granted hf t.world data hreply, World.setCache_cache,
              if_pos rfl]
            rfl
        | cons g later =>
            simp only [record, List.cons_append, List.cons.injEq] at hsplit
            obtain ⟨rfl, hsplit⟩ := hsplit
            have hnow' : (request.handle env t.world).2.now = t.world.now :=
              handle_now env request _
            simp only [record, hnow'] at hnow hmax
            have hcached :=
              ih later hsplit (fun g' hg' => huntouched g' (List.mem_cons_of_mem _ hg'))
              hnow hmax
            simp only [record]
            rcases handle_cache_cases hf t.world request workflowId position with
              ⟨hends, hposition, -⟩ | ⟨data, rfl, rfl, rfl, hg, -⟩ | ⟨hsame, -⟩
            · have hno := huntouched _ List.mem_cons_self hposition
              rw [hends] at hno
              contradiction
            · have hidle := ((handle_leaseCheckpoint_granted_iff hf t.world data).mp hg).2.1
              have hleased : t.world.leaseAt data.workflowId data.position = some lease := by
                rw [World.leaseAt, hcached]
                rfl
              exact absurd (World.activeLease_eq_none_iff.mp hidle lease hleased)
                (lease.not_expired hnow hmax)
            · rw [hsame]
              exact hcached
      · simp only [World.tick] at hnow hmax ⊢
        exact ih later hsplit huntouched (by omega) (by omega)
      · have hcached := ih later hsplit huntouched hnow hmax
        simp only [World.setCache_cache]
        split
        · next hkey =>
            rw [hkey, hentry] at hcached
            cases hcached
            have hpassed : lease.createdAt + 1000 * cacheTtl lease.leaseTimeout ≤ t.world.now :=
              of_decide_eq_true hevict
            simp only [World.setCache_now] at hnow
            omega
        · exact hcached

/-- A lease that is cached is seen where no row is stored. -/
theorem waits_of_cache (hrun : s.Runs workflowId position lease)
    (hrow : s.world.checkpoints workflowId position = none)
    (hcached : s.world.cache (generateLeasedCheckpointKey workflowId position) =
      some (grantedLease lease.leaseTimeout lease.createdAt)) :
        s.Waits workflowId position := by
  rintro env data hf rfl rfl
  have hleased : s.world.leaseAt data.workflowId data.position = some lease := by
    rw [World.leaseAt, hcached]
    rfl
  exact ⟨_, handle_leaseCheckpoint_of_active hf hrow hleased
    (lease.not_expired hrun.2.1 hrun.2.2)⟩

/-- A row answers every lease request itself. -/
theorem not_waits_of_row {row : Checkpoint}
    (hrow : s.world.checkpoints workflowId position = some row) :
      ¬ s.Waits workflowId position := by
  intro hwaits
  obtain ⟨remaining, hreply⟩ := hwaits (.calm "" true)
    { workflowId := workflowId, fencingToken := 0, position := position, leaseTimeout := 0,
      idempotencyKey := row.idempotencyKey } rfl rfl rfl
  rw [handle_leaseCheckpoint_of_row rfl hrow, replayReply] at hreply
  simp only [ne_eq, not_true_eq_false, if_false] at hreply
  cases hvalue : row.value <;> simp [hvalue] at hreply

/-! ## A lease that is lost -/

/-- The first lease request of workflow `pay`. -/
def payRequest (leaseTimeout : Int) : LeaseCheckpointInput :=
  { workflowId := "pay", fencingToken := 1, position := 0, leaseTimeout := leaseTimeout,
    idempotencyKey := "k" }

/-- Workflow `pay` is started at time 0. -/
def payStarted : Server :=
  record (.calm "" true) (.workflowStart { workflowId := "pay", name := none })
    { world := .empty 0, history := [] }

/-- Its first lease is granted, -/
def payLeased (leaseTimeout : Int) : Server :=
  record (.calm "" true) (.leaseCheckpoint (payRequest leaseTimeout)) payStarted

/-- and dropped when its time to live has passed. -/
def payDropped (leaseTimeout : Int) : Server :=
  { payLeased leaseTimeout with
    world := ((payLeased leaseTimeout).world.tick (1000 * cacheTtl leaseTimeout).toNat).setCache
      (generateLeasedCheckpointKey "pay" 0) none }

theorem payStarted_granted (leaseTimeout : Int) :
    ((Request.leaseCheckpoint (payRequest leaseTimeout)).handle (.calm "" true)
      payStarted.world).1 = granted :=
  (handle_leaseCheckpoint_granted_iff rfl payStarted.world _).mpr ⟨rfl, rfl, rfl⟩

theorem payLeased_world (leaseTimeout : Int) :
    (payLeased leaseTimeout).world =
      payStarted.world.setCache (generateLeasedCheckpointKey "pay" 0)
        (some (grantedLease leaseTimeout 0)) :=
  handle_leaseCheckpoint_of_granted rfl payStarted.world _ (payStarted_granted leaseTimeout)

theorem cacheTtl_pos (leaseTimeout : Int) : 0 < cacheTtl leaseTimeout := by
  have hle : minimumCacheTtl ≤ cacheTtl leaseTimeout := Int.le_max_right _ _
  exact Int.lt_of_lt_of_le (by decide) hle

theorem payDropped_now (leaseTimeout : Int) :
    (payDropped leaseTimeout).world.now = 1000 * cacheTtl leaseTimeout := by
  have hpos := cacheTtl_pos leaseTimeout
  have hzero : payStarted.world.now = 0 := rfl
  simp only [payDropped, World.setCache_now, World.tick, payLeased_world, hzero]
  omega

theorem payDropped_reached
    (leaseTimeout : Int) : (payDropped leaseTimeout).Reached ttlPassed := by
  have hstart : payStarted.Reached ttlPassed :=
    .step (l := .handle _ (.calm "" true)) (.start ⟨0, rfl⟩) trivial rfl
  have hleased : (payLeased leaseTimeout).Reached ttlPassed :=
    .step (l := .handle _ (.calm "" true)) hstart trivial rfl
  have hlater :=
    Reachable.step (l := .tick (1000 * cacheTtl leaseTimeout).toNat) hleased trivial rfl
  refine .step (l := .evict (generateLeasedCheckpointKey "pay" 0)) hlater trivial ?_
  have hcached :
    ((payLeased leaseTimeout).world.tick (1000 * cacheTtl leaseTimeout).toNat).cache
      (generateLeasedCheckpointKey "pay" 0) = some (grantedLease leaseTimeout 0) := by
    simp only [World.tick, payLeased_world, World.setCache_cache, if_true]
  have hpassed : ttlPassed (grantedLease leaseTimeout 0)
      ((payLeased leaseTimeout).world.tick (1000 * cacheTtl leaseTimeout).toNat).now =
        true := by
    have hnow := payDropped_now leaseTimeout
    simp only [payDropped, World.setCache_now] at hnow
    rw [hnow, ttlPassed, decide_eq_true_iff]
    simp only [grantedLease, Int.zero_add, Int.le_refl]
  simp only [step, World.evict, hcached, hpassed, if_true, Option.map_some]
  rfl

/-- Its lease still runs, where the time to live does not cover it, -/
theorem payDropped_runs {leaseTimeout : Int} (hmax : leaseTimeout ≤ i64Max)
    (h : 1000 * cacheTtl leaseTimeout < leaseTimeout) :
    (payDropped leaseTimeout).Runs "pay" 0 (grantedLease leaseTimeout 0).lease := by
  refine ⟨⟨[], _, _, 1, rfl, ?_, fun h hh => absurd hh List.not_mem_nil⟩, ?_, ?_⟩
  · simp only [Handled.grant, payRequest]
    rfl
  · rw [payDropped_now]
    simp only [grantedLease]
    omega
  · rw [payDropped_now]
    omega

/-- and is granted once more. -/
theorem payDropped_granted (leaseTimeout : Int) :
    ((Request.leaseCheckpoint (payRequest leaseTimeout)).handle (.calm "" true)
      (payDropped leaseTimeout).world).1 = granted := by
  refine (handle_leaseCheckpoint_granted_iff rfl _ _).mpr ⟨?_, ?_, ?_⟩
  · simp only [payDropped, World.setCache_checkpoints, World.tick, payLeased_world]
    rfl
  · refine World.activeLease_eq_none_iff.mpr fun lease hlease => ?_
    simp only [payDropped, World.leaseAt, World.setCache_cache] at hlease
    contradiction
  · simp only [payDropped, World.setCache_fencingTokens, World.tick, payLeased_world]
    rfl

theorem payDropped_not_waits
    (leaseTimeout : Int) : ¬ (payDropped leaseTimeout).Waits "pay" 0 := by
  intro hwaits
  obtain ⟨remaining, hreply⟩ := hwaits (.calm "" true) (payRequest leaseTimeout) rfl rfl rfl
  rw [payDropped_granted, granted] at hreply
  cases hreply

/-- **A lease is visible for its whole life** exactly if its timeout is at most
thirty seconds or in whole seconds; and no lease is where a row came to stand
at its position. -/
theorem lease_visible_iff (leaseTimeout : Int) (hpos : 0 < leaseTimeout)
    (hmax : leaseTimeout ≤ i64Max) :
    ((∀ s : Server, s.Reached ttlPassed → ∀ workflowId position lease,
        lease.leaseTimeout = leaseTimeout → s.Runs workflowId position lease →
        s.world.checkpoints workflowId position = none → s.Waits workflowId position) ↔
      leaseTimeout ≤ 30000 ∨ leaseTimeout % 1000 = 0) ∧
    ∀ s : Server, s.Reached ttlPassed → ∀ workflowId position lease,
      s.Runs workflowId position lease → s.world.checkpoints workflowId position ≠ none →
      ¬ s.Waits workflowId position := by
  refine ⟨⟨fun hvisible => ?_, fun hshort => ?_⟩, ?_⟩
  · rw [← covers_iff hpos]
    by_contra hlost
    have hruns := payDropped_runs hmax (Int.not_le.mp hlost)
    refine payDropped_not_waits leaseTimeout
      (hvisible _ (payDropped_reached leaseTimeout) "pay" 0 _ rfl hruns ?_)
    exact ((handle_leaseCheckpoint_granted_iff rfl _ _).mp (payDropped_granted leaseTimeout)).1
  · rintro s hr workflowId position lease rfl hruns hrow
    exact waits_of_cache hruns hrow (cache_of_runs hr hruns ((covers_iff hpos).mpr hshort))
  · intro s _ workflowId position lease _ hrow
    obtain ⟨row, hrow⟩ := Option.ne_none_iff_exists'.mp hrow
    exact not_waits_of_row hrow

/-- A lease of a minute, three quarters of it over. -/
def minuteLeased : Server :=
  { payLeased 60000 with world := (payLeased 60000).world.tick 45000 }

/-- A lease of a minute is still seen after three quarters of it. -/
theorem minute_lease_visible :
    ∃ s : Server, s.Reached ttlPassed ∧
      s.Runs "pay" 0 { leaseTimeout := 60000, createdAt := 0 } ∧
      s.world.now = 45000 ∧ s.Waits "pay" 0 := by
  have hleased : (payLeased 60000).Reached ttlPassed :=
    .step (l := .handle _ (.calm "" true))
      (.step (l := .handle _ (.calm "" true)) (.start ⟨0, rfl⟩) trivial rfl) trivial rfl
  have hr : minuteLeased.Reached ttlPassed := .step (l := .tick 45000) hleased trivial rfl
  have hruns : minuteLeased.Runs "pay" 0 { leaseTimeout := 60000, createdAt := 0 } :=
    ⟨⟨[], _, _, 1, rfl, rfl, fun h hh => absurd hh List.not_mem_nil⟩, by decide, by decide⟩
  exact ⟨minuteLeased, hr, hruns, rfl, (lease_visible_iff 60000 (by decide) (by decide)).1.mpr
    (.inr (by decide)) minuteLeased hr "pay" 0 _ rfl hruns rfl⟩

/-- A lease of thirty and a half seconds is granted twice. -/
theorem second_grant_in_time :
    ∃ s : Server, s.Reached ttlPassed ∧
      s.Runs "pay" 0 { leaseTimeout := 30500, createdAt := 0 } ∧
      s.world.now = 30000 ∧
      ((Request.leaseCheckpoint (payRequest 30500)).handle (.calm "" true) s.world).1 =
        granted ∧
      ¬ s.Waits "pay" 0 :=
  ⟨payDropped 30500, payDropped_reached 30500, payDropped_runs (by decide) (by decide),
    payDropped_now 30500, payDropped_granted 30500, payDropped_not_waits 30500⟩

end Server

end IdempotentTransformer
