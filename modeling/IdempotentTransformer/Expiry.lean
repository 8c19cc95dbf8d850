import IdempotentTransformer.Checkpoints
import IdempotentTransformer.Visibility

/-!
# IdempotentTransformer.Expiry

The arithmetic of a lease's expiry, at every value an `i64` holds.

`diff_lease_expiry_from_now` saturates twice, and for a hostile timeout either
result may be far off.  Its sign never is, and the sign is all that is tested:
`handle_lease_checkpoint` has a request wait while it is positive, and
`handle_checkpoint` refuses a superseded worker once it is not.

* `lease_expiry_exact` — the sign is that of the exact difference, and at no
  instant do the two tests agree or does neither apply.
-/

namespace IdempotentTransformer

open Library

/-- What an `i64` holds. -/
def IsI64 (n : Int) : Prop := i64Min ≤ n ∧ n ≤ i64Max

instance (n : Int) : Decidable (IsI64 n) := inferInstanceAs (Decidable (_ ∧ _))

/-! ## The two tests -/

/-- The lease request is told to wait for that long. -/
def LeaseCheckpointInput.Waits (data : LeaseCheckpointInput) (env : Env) (w : World)
    (remaining : Int) : Prop :=
  ((Request.leaseCheckpoint data).handle env w).1 =
    .ok (.leaseCheckpoint { response := some (.RemainingLeaseTimeout remaining) })

/-- The checkpoint is refused as one of an expired token. -/
def CheckpointInput.Refused (data : CheckpointInput) (env : Env) (w : World) : Prop :=
  ((Request.checkpoint data).handle env w).1 = .error (.io .InvalidData "fencing_token_expired")

/-- What the arithmetic of a lease's expiry is to give. -/
structure LeasedCheckpointValue.ExactExpiry (leased : LeasedCheckpointValue) : Prop where
  /-- The remaining time is positive as long as the lease's time is not up. -/
  sign : ∀ now, 0 ≤ now → now < i64Max →
    (0 < remainingLeaseTimeout leased now ↔ now < leased.createdAt + leased.leaseTimeout)
  /-- It is the exact difference where an `i64` holds both results. -/
  difference : ∀ now, IsI64 (leased.createdAt + leased.leaseTimeout) →
    IsI64 (leased.createdAt + leased.leaseTimeout - now) →
    remainingLeaseTimeout leased now = leased.createdAt + leased.leaseTimeout - now
  /-- It is not positive again later. -/
  lasting : ∀ now later, now ≤ later → remainingLeaseTimeout leased now ≤ 0 →
    remainingLeaseTimeout leased later ≤ 0
  /-- While it is positive, whoever asks for the position is told to wait so long. -/
  waits : ∀ env w (data : LeaseCheckpointInput), env.fault = .none →
    w.leaseAt data.workflowId data.position = some leased →
    w.checkpoints data.workflowId data.position = none →
    ∀ remaining, data.Waits env w remaining ↔
      remaining = remainingLeaseTimeout leased w.now ∧ 0 < remaining
  /-- Once it is not, a superseded checkpoint is refused. -/
  refused : ∀ env w (data : CheckpointInput), env.fault = .none →
    w.leaseAt data.workflowId data.position = some leased → data.Superseded w →
    (data.Refused env w ↔ remainingLeaseTimeout leased w.now ≤ 0)
  /-- At every instant it is one or the other. -/
  complementary : ∀ env w (lease : LeaseCheckpointInput) (checkpoint : CheckpointInput),
    env.fault = .none → lease.workflowId = checkpoint.workflowId →
    lease.position = checkpoint.position →
    w.leaseAt lease.workflowId lease.position = some leased →
    w.checkpoints lease.workflowId lease.position = none → checkpoint.Superseded w →
    ((∃ remaining, lease.Waits env w remaining) ↔ ¬ checkpoint.Refused env w)

section Tests

variable {env : Env} (hf : env.fault = .none) {w : World} {leased : LeasedCheckpointValue}

include hf

theorem waits_iff {data : LeaseCheckpointInput}
    (hleased : w.leaseAt data.workflowId data.position = some leased)
    (hrow : w.checkpoints data.workflowId data.position = none) (remaining : Int) :
    data.Waits env w remaining ↔
      remaining = remainingLeaseTimeout leased w.now ∧ 0 < remaining := by
  by_cases he : leased.Expired w.now
  · have hle : remainingLeaseTimeout leased w.now ≤ 0 := he
    have hnone : w.activeLease data.workflowId data.position = none := by
      simp [World.activeLease, hleased, Option.filter, he]
    have hnot : ¬ data.Waits env w remaining := by
      intro hwaits
      have hcases := handle_leaseCheckpoint_without_row hf w data hrow
      rw [LeaseCheckpointInput.Waits] at hwaits
      simp [hnone, hwaits, granted] at hcases
    simp only [hnot, false_iff, not_and]
    omega
  · have hlt : 0 < remainingLeaseTimeout leased w.now := Int.not_le.mp he
    have hreply := handle_leaseCheckpoint_of_active hf hrow hleased he
    simp only [LeaseCheckpointInput.Waits, hreply, Except.ok.injEq,
      Response.leaseCheckpoint.injEq, LeaseCheckpointOutput.mk.injEq, Option.some.injEq,
      LeaseCheckpointReturnType.RemainingLeaseTimeout.injEq]
    omega

theorem refused_iff {data : CheckpointInput}
    (hleased : w.leaseAt data.workflowId data.position = some leased) (hs : data.Superseded w) :
    data.Refused env w ↔ leased.Expired w.now := by
  obtain ⟨stored, htoken, hlt⟩ := hs
  have hreply := handle_checkpoint env w data
  rw [run_handleCheckpoint hf, htoken, hleased] at hreply
  by_cases he : leased.Expired w.now
  · simp [CheckpointInput.Refused, hreply, hlt, he, Except.map]
  · simp [CheckpointInput.Refused, hreply, hlt, he, Except.map]

end Tests

/-- **The arithmetic of a lease's expiry is exact**, whatever the lease. -/
theorem lease_expiry_exact (leased : LeasedCheckpointValue) : leased.ExactExpiry := by
  constructor
  case sign =>
    intro now hnow hmax
    have hmin : i64Min ≤ now := by unfold i64Min; omega
    calc 0 < remainingLeaseTimeout leased now
      _ ↔ ¬ leased.Expired now := not_le.symm
      _ ↔ ¬ saturatingAdd leased.createdAt leased.leaseTimeout ≤ now :=
          not_congr LeasedCheckpointValue.expired_iff
      _ ↔ ¬ leased.createdAt + leased.leaseTimeout ≤ now := not_congr (clamp_le_iff hmin hmax)
      _ ↔ now < leased.createdAt + leased.leaseTimeout := not_le
  case difference =>
    intro now hsum hdifference
    have hexact : saturatingAdd leased.createdAt leased.leaseTimeout =
        leased.createdAt + leased.leaseTimeout := clamp_of_mem hsum.1 hsum.2
    rw [remainingLeaseTimeout, hexact]
    exact clamp_of_mem hdifference.1 hdifference.2
  case lasting => exact fun now later hle he => LeasedCheckpointValue.Expired.mono he hle
  case waits => exact fun env w data hf hleased hrow => waits_iff hf hleased hrow
  case refused => exact fun env w data hf hleased hs => refused_iff hf hleased hs
  case complementary =>
    intro env w lease checkpoint hf hworkflow hposition hleased hrow hs
    have hwaits := waits_iff hf hleased hrow
    rw [hworkflow, hposition] at hleased
    rw [refused_iff hf hleased hs]
    simp only [hwaits, exists_eq_left, LeasedCheckpointValue.Expired, not_le]

/-- A sum that saturates at either end. -/
example : remainingLeaseTimeout { leaseTimeout := i64Max, createdAt := i64Max } 1 = i64Max - 1 ∧
    remainingLeaseTimeout { leaseTimeout := i64Min, createdAt := -1 } 1 = i64Min := by
  decide

end IdempotentTransformer
