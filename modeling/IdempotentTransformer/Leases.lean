import IdempotentTransformer.Interleaving

/-!
# IdempotentTransformer.Leases

When `handle_lease_checkpoint` writes a lease, storage call by storage call.

The handler reads the row before it takes the lock, and gives the lock back
before it reads the lease: nothing holds between its reads and its write.

* **no lease after persistence** — the value was not stored when the lease
  is written exactly where none was stored since the handler read the row;
* **mutual exclusion** — a lease is written over another one in force only
  inside the stretch between a handler's lease read and its write.
-/

namespace IdempotentTransformer

open Library Program

variable {evictable : CachedLease → Int → Bool} {P : Handlers}

/-- The call writes a lease for the position. -/
def WritesLease (e : StorageEvent) (workflowId : String) (position : Int) : Prop :=
  ∃ lease ttl, e.op = .cachePut (generateLeasedCheckpointKey workflowId position) lease ttl

/-- The lease request of a write, and the replies it rests on. -/
theorem writesLease_calls (hr : P.Reached evictable) {later earlier : List StorageEvent}
    {e : StorageEvent} (he : P.trace = later ++ e :: earlier) {workflowId : String}
    {position : Int} (hw : WritesLease e workflowId position) :
    Replied (Pool.logOf e.pid earlier) (.selectCheckpoint workflowId position)
      (Except.ok none) ∧
      ∃ found, Replied (Pool.logOf e.pid earlier)
          (.cacheGet (generateLeasedCheckpointKey workflowId position)) (Except.ok found) ∧
        ∀ leased ∈ found, ∃ now : Int,
          Replied (Pool.logOf e.pid earlier) .utcNow now ∧ leased.Expired now := by
  obtain ⟨lease, ttl, hop⟩ := hw
  have hcalls := hr.calls he
  rw [hop] at hcalls
  obtain ⟨data, -, hkey, -, hrow, -, hlease⟩ := hcalls
  obtain ⟨rfl, rfl⟩ := generateLeasedCheckpointKey_inj.mp hkey
  exact ⟨hrow, hlease⟩

/-! ## No lease after persistence -/

/-- A value is stored for the position. -/
def World.Persisted (w : World) (workflowId : String) (position : Int) : Prop :=
  ∃ row, w.checkpoints workflowId position = some row ∧ row.value ≠ none

/-- The write comes too late: since its handler read the row, a value was
stored for the position.  `earlier` are the calls before the write, latest
first. -/
def Overtaken (e : StorageEvent) (earlier : List StorageEvent) (workflowId : String)
    (position : Int) : Prop :=
  ∃ between read before, earlier = between ++ read :: before ∧ read.pid = e.pid ∧
    read.op = .selectCheckpoint workflowId position ∧
    ∃ g ∈ between, ¬ g.before.Persisted workflowId position ∧
      g.after.Persisted workflowId position

/-- No lease is written for a position with a stored value, and no request is
granted it without such a write. -/
def Handlers.NoLeaseAfterPersistence (P : Handlers) (workflowId : String)
    (position : Int) : Prop :=
  (∀ e ∈ P.trace, WritesLease e workflowId position →
    ¬ e.before.Persisted workflowId position) ∧
    ∀ pid p data, P.procs pid = some p → p.tag = .leaseCheckpoint data →
      data.workflowId = workflowId → data.position = position → p.rest = .ret granted →
      ∃ e ∈ P.trace, e.pid = pid ∧ WritesLease e workflowId position ∧
        ¬ e.before.Persisted workflowId position

/-- A stored value stays through every call but those of cleanup. -/
theorem persisted_kept (hr : P.Reached evictable) {e : StorageEvent} (he : e ∈ P.trace)
    (hu : e.tag ≠ .cleanUp) {workflowId : String} {position : Int}
    (h : e.before.Persisted workflowId position) : e.after.Persisted workflowId position := by
  obtain ⟨row, hrow, hv⟩ := h
  obtain ⟨createdAt, hrow'⟩ := hr.row_kept he hu hrow
  exact ⟨_, hrow', hv⟩

theorem Persisted.of_drifts {w w' : World} (h : w.Drifts evictable w') (workflowId : String)
    (position : Int) : w'.Persisted workflowId position ↔ w.Persisted workflowId position := by
  simp only [World.Persisted, h.checkpoints]

/-- **Where a lease is written**: the position has a stored value exactly if
one was stored since the handler read the row. -/
theorem persisted_iff_overtaken (hr : P.Reached evictable)
    (hu : ∀ e ∈ P.trace, e.tag ≠ .cleanUp) {later earlier : List StorageEvent}
    {e : StorageEvent} (he : P.trace = later ++ e :: earlier)
    {workflowId : String} {position : Int} (hw : WritesLease e workflowId position) :
    e.before.Persisted workflowId position ↔ Overtaken e earlier workflowId position := by
  have hsub : earlier ⊆ P.trace := by
    rw [he]
    exact List.subset_append_of_subset_right _ (List.subset_cons_self e earlier)
  constructor
  · intro hpersisted
    obtain ⟨hrow, -⟩ := writesLease_calls hr he hw
    obtain ⟨between, read, before, env, rfl, hpid, hop, hexec⟩ :=
      hr.sound.exists_of_mem_logOf hsub hrow
    obtain ⟨hnone, hsame⟩ := Fault.apply_eq_ok hexec
    have hnot : ¬ read.after.Persisted workflowId position := by
      rintro ⟨row, hsome, -⟩
      rw [hsame] at hsome
      rw [hsome] at hnone
      contradiction
    obtain ⟨g, hg, hbefore, hafter⟩ := (hr.sound.span_between he).exists_change
      (I := fun w => ¬ w.Persisted workflowId position)
      (fun _ _ h hn => mt (Persisted.of_drifts h workflowId position).mp hn) hnot
      (not_not.mpr hpersisted)
    exact ⟨between, read, before, rfl, hpid, hop, g, hg, hbefore, not_not.mp hafter⟩
  · rintro ⟨between, read, before, rfl, -, -, g, hg, -, hafter⟩
    obtain ⟨newer, older, rfl⟩ := List.append_of_mem hg
    rw [List.append_assoc, List.cons_append] at he
    refine (hr.sound.span_between he).preserves (I := fun w => w.Persisted workflowId position)
      (fun _ _ h => (Persisted.of_drifts h workflowId position).mpr) ?_ hafter
    intro f hf hpersisted
    have hmem : f ∈ P.trace := by rw [he]; simp [hf]
    exact persisted_kept hr hmem (hu f hmem) hpersisted

/-- A granted request has written its lease. -/
theorem exists_write_of_granted (hr : P.Reached evictable) {pid : Nat}
    {p : Process StorageCall StorageCall.Reply String (Except HandlerError Response) Request}
    (hp : P.procs pid = some p) {data : LeaseCheckpointInput}
    (ht : p.tag = .leaseCheckpoint data) (hg : p.rest = .ret granted) :
    ∃ e ∈ P.trace, e.pid = pid ∧ WritesLease e data.workflowId data.position := by
  have hanswers := hr.sound.obeys hp (Request.obeys p.tag)
  rw [hg, ht] at hanswers
  obtain ⟨data', lease, ttl, hd, hput⟩ := hanswers rfl
  cases hd
  obtain ⟨later, e, earlier, env, he, hpid, hop, -⟩ :=
    hr.sound.exists_of_mem_logOf (List.Subset.refl _) hput
  exact ⟨e, by rw [he]; simp, hpid, lease, ttl, hop⟩

/-- **No lease after persistence, in every interleaving**: it holds of a run
exactly if no write of the run is overtaken. -/
theorem no_lease_after_persistence_iff (hr : P.Reached evictable)
    (hu : ∀ e ∈ P.trace, e.tag ≠ .cleanUp) (workflowId : String) (position : Int) :
    P.NoLeaseAfterPersistence workflowId position ↔
      ∀ later e earlier, P.trace = later ++ e :: earlier → WritesLease e workflowId position →
        ¬ Overtaken e earlier workflowId position := by
  constructor
  · rintro ⟨hwrites, -⟩ later e earlier he hw hover
    exact hwrites e (by rw [he]; simp) hw ((persisted_iff_overtaken hr hu he hw).mpr hover)
  · intro hover
    have hwrites : ∀ e ∈ P.trace, WritesLease e workflowId position →
        ¬ e.before.Persisted workflowId position := by
      intro e he hw hpersisted
      obtain ⟨later, earlier, hsplit⟩ := List.append_of_mem he
      exact hover later e earlier hsplit hw
        ((persisted_iff_overtaken hr hu hsplit hw).mp hpersisted)
    refine ⟨hwrites, fun pid p data hp ht hwid hpos hg => ?_⟩
    subst hwid hpos
    obtain ⟨e, he, hpid, hw⟩ := exists_write_of_granted hr hp ht hg
    exact ⟨e, he, hpid, hw, hwrites e he hw⟩

/-- The first worker is granted the position. -/
def firstGrant : List (Pool.Label Request Env Drift) :=
  arrives 0 payStart 5 ++ arrives 1 (payLease 1) 8

/-- A second worker asks while the first holds the lease: it reads the row,
the first worker's checkpoint is handled, and it goes on. -/
def grantAfterCheckpoint : List (Pool.Label Request Env Drift) :=
  firstGrant ++ arrives 2 payStart 5 ++ arrives 3 (payLease 2) 1 ++ arrives 4 payCheckpoint 7 ++
    goesOn 3 7

theorem first_grant_no_lease_after_persistence :
    ∃ P, runLabels firstGrant = some P ∧ (P.procs 1).map Process.rest = some (.ret granted) ∧
      P.NoLeaseAfterPersistence "pay" 0 := by
  obtain ⟨P, hP⟩ : ∃ P, runLabels firstGrant = some P := Option.isSome_iff_exists.mp rfl
  have htags : (P.trace.all fun e => e.tag != .cleanUp) = true :=
    eq_of_runLabels hP (fun P => P.trace.all fun e => e.tag != .cleanUp) (by decide +kernel)
  have hrows : (P.trace.all fun e => (e.after.checkpoints "pay" 0).isNone) = true :=
    eq_of_runLabels hP (fun P => P.trace.all fun e => (e.after.checkpoints "pay" 0).isNone)
      (by decide +kernel)
  have hcleanUp : ∀ e ∈ P.trace, e.tag ≠ .cleanUp := fun e he => by
    simpa using List.all_eq_true.mp htags e he
  refine ⟨P, hP, eq_of_runLabels hP (fun P => (P.procs 1).map Process.rest) rfl,
    (no_lease_after_persistence_iff (reached_of_runLabels hP) hcleanUp "pay" 0).mpr ?_⟩
  rintro later e earlier he - ⟨between, read, before, rfl, -, -, g, hg, -, row, hrow, -⟩
  have hnone := List.all_eq_true.mp hrows g (by rw [he]; simp [hg])
  rw [hrow] at hnone
  contradiction

/-- The second worker is granted a position whose value is stored. -/
theorem grant_after_checkpoint :
    ∃ P, runLabels grantAfterCheckpoint = some P ∧ P.Reached leaseExpired ∧
      (∀ e ∈ P.trace, e.tag ≠ .cleanUp) ∧ (P.procs 3).map Process.rest = some (.ret granted) ∧
      ¬ P.NoLeaseAfterPersistence "pay" 0 := by
  obtain ⟨P, hP⟩ : ∃ P, runLabels grantAfterCheckpoint = some P :=
    Option.isSome_iff_exists.mp rfl
  have htags : (P.trace.all fun e => e.tag != .cleanUp) = true :=
    eq_of_runLabels hP (fun P => P.trace.all fun e => e.tag != .cleanUp) (by decide +kernel)
  have hlast : P.trace.head?.map
      (fun e => (e.op, (e.before.checkpoints "pay" 0).map Checkpoint.value)) =
      some (.cachePut "pay:0" { leaseTimeout := 30000, createdAt := 0 } 30, some (some [1])) :=
    eq_of_runLabels hP (fun P => P.trace.head?.map
      fun e => (e.op, (e.before.checkpoints "pay" 0).map Checkpoint.value)) (by decide +kernel)
  refine ⟨P, hP, reached_of_runLabels hP,
    fun e he => by simpa using List.all_eq_true.mp htags e he,
    eq_of_runLabels hP (fun P => (P.procs 3).map Process.rest) rfl, ?_⟩
  rintro ⟨hwrites, -⟩
  cases htrace : P.trace with
  | nil => rw [htrace] at hlast; contradiction
  | cons e es =>
      rw [htrace] at hlast
      simp only [List.head?_cons, Option.map_some, Option.some.injEq, Prod.mk.injEq,
        Option.map_eq_some_iff] at hlast
      obtain ⟨hop, row, hrow, hv⟩ := hlast
      exact hwrites e (by rw [htrace]; simp) ⟨_, _, hop⟩ ⟨row, hrow, by rw [hv]; simp⟩

/-! ## Mutual exclusion -/

/-- The call leaves the lease in the cache. -/
def CachesLease (e : StorageEvent) (workflowId : String) (position : Int)
    (lease : LeasedCheckpointValue) : Prop :=
  WritesLease e workflowId position ∧ e.after.leaseAt workflowId position = some lease

/-- The call takes the lease away for a release or a checkpoint of the
position. -/
def EndsLease (e : StorageEvent) (workflowId : String) (position : Int)
    (lease : LeasedCheckpointValue) : Prop :=
  e.tag.endsLease = true ∧ e.tag.leasePosition = some (workflowId, position) ∧
    e.before.leaseAt workflowId position = some lease ∧
    e.after.leaseAt workflowId position ≠ some lease

/-- By the time of a later write a lease has expired, or a release or a
checkpoint has taken it away.  `between` are the calls between the two
writes. -/
def LeaseOver (lease : LeasedCheckpointValue) (between : List StorageEvent)
    (write : StorageEvent) (workflowId : String) (position : Int) : Prop :=
  lease.Expired write.before.now ∨ ∃ g ∈ between, EndsLease g workflowId position lease

/-- No two leases of the position are outstanding together. -/
def Handlers.MutualExclusion (P : Handlers) (workflowId : String) (position : Int) : Prop :=
  ∀ later write between first earlier lease,
    P.trace = later ++ write :: (between ++ first :: earlier) →
    CachesLease first workflowId position lease → WritesLease write workflowId position →
    LeaseOver lease between write workflowId position

/-- The handler of a write has read the lease before `earlier` ended. -/
def ReadLeaseBefore (write : StorageEvent) (earlier : List StorageEvent) (workflowId : String)
    (position : Int) : Prop :=
  ∃ read ∈ earlier, read.pid = write.pid ∧
    read.op = .cacheGet (generateLeasedCheckpointKey workflowId position)

/-- The lease is cached, or it has expired. -/
private def World.HoldsUntilExpiry (w : World) (workflowId : String) (position : Int)
    (lease : LeasedCheckpointValue) : Prop :=
  w.leaseAt workflowId position = some lease ∨ lease.Expired w.now

/-- The cache does not drop a lease in force. -/
private theorem holdsUntilExpiry_of_drifts {w w' : World} (h : w.Drifts leaseExpired w')
    {workflowId : String} {position : Int} {lease : LeasedCheckpointValue}
    (hl : w.HoldsUntilExpiry workflowId position lease) :
    w'.HoldsUntilExpiry workflowId position lease := by
  rcases hl with hl | he
  · rcases h.cache (generateLeasedCheckpointKey workflowId position) with
      hc | ⟨-, entry, n, hc, hle, hev⟩
    · left
      rw [World.leaseAt, hc]
      exact hl
    · right
      rw [World.leaseAt, hc, Option.map_some, Option.some.injEq] at hl
      subst hl
      exact (of_decide_eq_true hev).mono hle
  · exact .inr (he.mono h.now)

/-- What ends a lease in force is another write, or a release or checkpoint. -/
private theorem writes_or_ends {P : Handlers} (hr : P.Reached leaseExpired) {e : StorageEvent}
    (he : e ∈ P.trace) {workflowId : String} {position : Int} {lease : LeasedCheckpointValue}
    (hbefore : e.before.HoldsUntilExpiry workflowId position lease)
    (hafter : ¬ e.after.HoldsUntilExpiry workflowId position lease) :
    WritesLease e workflowId position ∨ EndsLease e workflowId position lease := by
  obtain ⟨later, earlier, hsplit⟩ := List.append_of_mem he
  obtain ⟨env, hexec⟩ := hr.after_eq he
  have hnow : e.after.now = e.before.now := by rw [hexec, StorageCall.exec_now]
  have hheld : e.before.leaseAt workflowId position = some lease := by
    rcases hbefore with hl | hexp
    · exact hl
    · exact absurd (.inr (hnow ▸ hexp)) hafter
  have hgone : e.after.leaseAt workflowId position ≠ some lease := fun h => hafter (.inl h)
  rcases StorageCall.exec_cache env e.op e.before
    (generateLeasedCheckpointKey workflowId position) with hc | ⟨lease', ttl, hop⟩ | hop
  · refine absurd ?_ hgone
    rw [hexec, World.leaseAt, hc]
    exact hheld
  · exact .inl ⟨lease', ttl, hop⟩
  · right
    have hcalls := hr.calls hsplit
    rw [hop] at hcalls
    obtain ⟨hends, workflowId', position', hp, hkey⟩ := hcalls
    obtain ⟨rfl, rfl⟩ := generateLeasedCheckpointKey_inj.mp hkey
    exact ⟨hends, hp, hheld, hgone⟩

/-- An element of a split list stands before the split, at it, or after it. -/
private theorem mem_or_split {α : Type} {between earlier newer older : List α} {first read : α}
    (h : between ++ first :: earlier = newer ++ read :: older) (hne : read ≠ first) :
    read ∈ earlier ∨ ∃ middle, between = newer ++ read :: middle := by
  rcases List.append_eq_append_iff.mp h with ⟨middle, -, hrest⟩ | ⟨middle, hb, hrest⟩
  · cases middle with
    | nil =>
        simp only [List.nil_append, List.cons.injEq] at hrest
        exact absurd hrest.1.symm hne
    | cons g middle =>
        simp only [List.cons_append, List.cons.injEq] at hrest
        exact .inl (by rw [hrest.2]; simp)
  · cases middle with
    | nil =>
        simp only [List.nil_append, List.cons.injEq] at hrest
        exact absurd hrest.1 hne
    | cons g middle =>
        simp only [List.cons_append, List.cons.injEq] at hrest
        exact .inr ⟨middle, by rw [hb, hrest.1]⟩

/-- A stretch without another write that neither outlasts the lease nor takes
it away leaves it cached. -/
private theorem leaseAt_of_outstanding {P : Handlers} (hr : P.Reached leaseExpired)
    {later between earlier : List StorageEvent} {e first : StorageEvent}
    {lease : LeasedCheckpointValue} {workflowId : String} {position : Int}
    (he : P.trace = later ++ e :: (between ++ first :: earlier))
    (hfirst : CachesLease first workflowId position lease)
    (hfresh : ¬ lease.Expired e.before.now)
    (hends : ∀ g ∈ between, ¬ EndsLease g workflowId position lease)
    (hnone : ∀ g ∈ between, ¬ WritesLease g workflowId position) :
    e.before.leaseAt workflowId position = some lease := by
  have hkept : ∀ g ∈ between, g.before.HoldsUntilExpiry workflowId position lease →
      g.after.HoldsUntilExpiry workflowId position lease := by
    intro g hg hbefore
    by_contra hafter
    have hmem : g ∈ P.trace := by rw [he]; simp [hg]
    rcases writes_or_ends hr hmem hbefore hafter with hw | hend
    · exact hnone g hg hw
    · exact hends g hg hend
  have hholds : e.before.HoldsUntilExpiry workflowId position lease :=
    (hr.sound.span_between he).preserves
      (I := fun w => w.HoldsUntilExpiry workflowId position lease)
      (fun _ _ h => holdsUntilExpiry_of_drifts h) hkept (.inl hfirst.2)
  exact hholds.resolve_right hfresh

/-- Where the first lease is neither expired nor taken away, the handler of
the write after it has read the lease before it was there. -/
private theorem readLeaseBefore_of_outstanding {P : Handlers} (hr : P.Reached leaseExpired)
    {later between earlier : List StorageEvent} {write first : StorageEvent}
    {lease : LeasedCheckpointValue} {workflowId : String} {position : Int}
    (he : P.trace = later ++ write :: (between ++ first :: earlier))
    (hfirst : CachesLease first workflowId position lease)
    (hwrite : WritesLease write workflowId position)
    (hout : ¬ LeaseOver lease between write workflowId position)
    (hnone : ∀ g ∈ between, ¬ WritesLease g workflowId position) :
    ReadLeaseBefore write earlier workflowId position := by
  obtain ⟨-, found, hfound, hexp⟩ := writesLease_calls hr he hwrite
  have hsub : between ++ first :: earlier ⊆ P.trace := by
    rw [he]
    exact List.subset_append_of_subset_right _ (List.subset_cons_self _ _)
  obtain ⟨newer, read, older, env, hsplit, hpid, hop, hexec⟩ :=
    hr.sound.exists_of_mem_logOf hsub hfound
  have hne : read ≠ first := by
    rintro rfl
    obtain ⟨lease', ttl, hput⟩ := hfirst.1
    rw [hput] at hop
    contradiction
  rcases mem_or_split hsplit hne with hmem | ⟨middle, rfl⟩
  · exact ⟨read, hmem, hpid, hop⟩
  · -- A read after the first write would have found the lease in force.
    exfalso
    have hread : P.trace = (later ++ write :: newer) ++ read ::
      (middle ++ first :: earlier) := by
      rw [he]
      simp
    have hafter : P.trace = later ++ write ::
      (newer ++ read :: (middle ++ first :: earlier)) := by
      rw [he]
      simp
    have hle : read.before.now ≤ write.before.now := hr.now_le hafter
    have hleased : read.before.leaseAt workflowId position = some lease :=
      leaseAt_of_outstanding hr hread hfirst (fun h => hout (.inl (h.mono hle)))
        (fun g hg h => hout (.inr ⟨g, by simp [hg], h⟩)) (fun g hg => hnone g (by simp [hg]))
    obtain ⟨hreply, -⟩ := Fault.apply_eq_ok hexec
    obtain ⟨now, hnow, hexpired⟩ := hexp lease (hreply.trans hleased)
    obtain ⟨newer', clock, older', env', hsplit', -, -, hexec'⟩ :=
      hr.sound.exists_of_mem_logOf hsub hnow
    have hclock : clock.before.now = now := congrArg Prod.fst hexec'
    rw [hsplit'] at he
    exact hout (.inl (hexpired.mono (hclock ▸ hr.now_le he)))

/-- **Mutual exclusion in every interleaving**: it holds of a run exactly if
it holds of the writes whose handler has read the lease before the other
lease was written. -/
theorem mutual_exclusion_iff {P : Handlers} (hr : P.Reached leaseExpired) (workflowId : String)
    (position : Int) :
    P.MutualExclusion workflowId position ↔
      ∀ later write between first earlier lease,
        P.trace = later ++ write :: (between ++ first :: earlier) →
        CachesLease first workflowId position lease → WritesLease write workflowId position →
        ReadLeaseBefore write earlier workflowId position →
        LeaseOver lease between write workflowId position := by
  constructor
  · intro h later write between first earlier lease he hfirst hwrite _
    exact h later write between first earlier lease he hfirst hwrite
  · intro h later write between first earlier lease he hfirst hwrite
    -- By the length of the stretch: a write inside it is a shorter one.
    induction hn : between.length using Nat.strong_induction_on generalizing later
      write between with
    | _ n ih =>
        by_contra hout
        have hnone : ∀ g ∈ between, ¬ WritesLease g workflowId position := by
          intro g hg hw
          obtain ⟨newer, older, rfl⟩ := List.append_of_mem hg
          have hshort : P.trace = (later ++ write :: newer) ++ g ::
            (older ++ first :: earlier) := by
            rw [he]
            simp
          have hafter : P.trace = later ++ write ::
            (newer ++ g :: (older ++ first :: earlier)) := by
            rw [he]
            simp
          have hle : g.before.now ≤ write.before.now := hr.now_le hafter
          have hover := ih older.length (by rw [← hn]; simp; omega) _ g older hshort hw rfl
          rcases hover with hexp | ⟨f, hf, hend⟩
          · exact hout (.inl (hexp.mono hle))
          · exact hout (.inr ⟨f, by simp [hf], hend⟩)
        have hread := readLeaseBefore_of_outstanding hr he hfirst hwrite hout hnone
        exact hout (h later write between first earlier lease he hfirst hwrite hread)

/-- The first worker is granted the position, and a second one asks for it. -/
def secondWaits : List (Pool.Label Request Env Drift) :=
  firstGrant ++ arrives 2 payStart 5 ++ arrives 3 (payLease 2) 7

/-- The first worker is about to write its lease when a second one starts, asks
for the position and is granted it; then the first worker goes on. -/
def doubleGrant : List (Pool.Label Request Env Drift) :=
  arrives 0 payStart 5 ++ arrives 1 (payLease 1) 7 ++ arrives 2 payStart 5 ++
    arrives 3 (payLease 2) 8 ++ goesOn 1 1

/-- The event puts an entry into the cache. -/
def StorageEvent.putsEntry (e : StorageEvent) : Bool :=
  match e.op with
  | .cachePut .. => true
  | _ => false

theorem second_waits_mutual_exclusion :
    ∃ P, runLabels secondWaits = some P ∧
      (P.procs 3).map Process.rest = some (.ret (.ok (.leaseCheckpoint
        { response := some (.RemainingLeaseTimeout 30000) }))) ∧ P.MutualExclusion "pay" 0 := by
  obtain ⟨P, hP⟩ : ∃ P, runLabels secondWaits = some P := Option.isSome_iff_exists.mp rfl
  have hone : (P.trace.filter StorageEvent.putsEntry).length = 1 :=
    eq_of_runLabels hP (fun P => (P.trace.filter StorageEvent.putsEntry).length)
      (by decide +kernel)
  have hwrites : ∀ e, WritesLease e "pay" 0 → e.putsEntry = true := by
    rintro e ⟨lease, ttl, hop⟩
    simp only [StorageEvent.putsEntry, hop]
  refine ⟨P, hP, eq_of_runLabels hP (fun P => (P.procs 3).map Process.rest) rfl,
    (mutual_exclusion_iff (reached_of_runLabels hP) "pay" 0).mpr ?_⟩
  intro later write between first earlier lease he hfirst hwrite _
  rw [he] at hone
  simp [hwrites write hwrite, hwrites first hfirst.1] at hone
  omega

/-- The lease each of them is granted. -/
def doubleLease : LeasedCheckpointValue := { leaseTimeout := 30000, createdAt := 0 }

/-- Both workers are granted the position, one lease over the other. -/
theorem double_grant :
    ∃ P, runLabels doubleGrant = some P ∧ P.Reached leaseExpired ∧
      P.shared.checkpoints "pay" 0 = none ∧ (P.procs 1).map Process.rest = some (.ret granted) ∧
      (P.procs 3).map Process.rest = some (.ret granted) ∧ ¬ P.MutualExclusion "pay" 0 := by
  obtain ⟨P, hP⟩ : ∃ P, runLabels doubleGrant = some P := Option.isSome_iff_exists.mp rfl
  have hlast : (P.trace.take 2).map
      (fun e => (e.op, e.before.now, e.after.leaseAt "pay" 0)) =
      [(.cachePut "pay:0" doubleLease 30, 0, some doubleLease),
        (.cachePut "pay:0" doubleLease 30, 0, some doubleLease)] :=
    eq_of_runLabels hP (fun P => (P.trace.take 2).map
      fun e => (e.op, e.before.now, e.after.leaseAt "pay" 0)) (by decide +kernel)
  refine ⟨P, hP, reached_of_runLabels hP,
    eq_of_runLabels hP (fun P => P.shared.checkpoints "pay" 0) (by decide +kernel),
    eq_of_runLabels hP (fun P => (P.procs 1).map Process.rest) rfl,
    eq_of_runLabels hP (fun P => (P.procs 3).map Process.rest) rfl, fun hexcl => ?_⟩
  obtain ⟨write, first, earlier, htrace⟩ : ∃ write first earlier,
      P.trace = write :: first :: earlier := by
    match htrace : P.trace with
    | [] => rw [htrace] at hlast; contradiction
    | [e] => simp [htrace] at hlast
    | write :: first :: earlier => exact ⟨write, first, earlier, rfl⟩
  rw [htrace] at hlast
  simp only [List.take_succ_cons, List.take_zero, List.map_cons, List.map_nil, List.cons.injEq,
    Prod.mk.injEq] at hlast
  obtain ⟨⟨hwrite, hnow, -⟩, ⟨hfirst, -, hcached⟩, -⟩ := hlast
  have hover := hexcl [] write [] first earlier doubleLease htrace
    ⟨⟨doubleLease, 30, hfirst⟩, hcached⟩ ⟨doubleLease, 30, hwrite⟩
  rcases hover with hexpired | ⟨g, hg, -⟩
  · rw [hnow] at hexpired
    exact absurd hexpired (by decide)
  · contradiction

end IdempotentTransformer
