import IdempotentTransformer.Server

/-!
# IdempotentTransformer.Checkpoints

What the rows of checkpoints are worth over whole runs of the server, each
handler in isolation.

* **acknowledgements** — an acknowledgement without abort is honest exactly
  where no other row was there first;
* **late results** — the value of a superseded worker is stored whenever no
  lease is cached, and under anybody's lease;
* **durable keys** — a generated key keeps its position, and closes it;
* **redelivery** — a checkpoint that is refused once is stored when it is
  repeated.
-/

namespace IdempotentTransformer

open Library

variable {evictable : CachedLease → Int → Bool} {s : Server}

/-! ## Acknowledgements -/

/-- The row a checkpoint request promises: its key with its value. -/
def CheckpointInput.StoredIn (data : CheckpointInput) (w : World) : Prop :=
  ∃ row, w.checkpoints data.workflowId data.position = some row ∧
    row.idempotencyKey = data.idempotencyKey ∧ row.value = some data.value

/-- A later lease request for the position with the key, with no cleanup in
between, is answered with the value.  `later` are the requests handled
since, latest first. -/
def CheckpointInput.ReplayedBy (data : CheckpointInput) (later : List Handled) : Prop :=
  ∀ newer g older, later = newer ++ g :: older → (∀ h ∈ older, h.request ≠ .cleanUp) →
    ∀ fencingToken leaseTimeout,
      g.request = .leaseCheckpoint
        { workflowId := data.workflowId, fencingToken := fencingToken
          position := data.position, leaseTimeout := leaseTimeout
          idempotencyKey := data.idempotencyKey } →
      g.reply = .ok (.leaseCheckpoint { response := some (.CheckpointValue data.value) })

/-- An acknowledgement without abort is kept: the row holds the key and the
value, and later lease requests are answered with it. -/
def Handled.AcknowledgedHonestly (h : Handled) (data : CheckpointInput) (later : List Handled) :
    Prop :=
  h.reply = .ok (.checkpoint { abort := false }) →
    data.StoredIn h.after ∧ data.ReplayedBy later

/-- Nothing stands in the way of the row: the request is not acknowledged
without abort anyway (no token is stored, or a newer one), or the position
has no row, or its row is the one to be stored. -/
def CheckpointInput.Unopposed (data : CheckpointInput) (w : World) : Prop :=
  (∀ stored, w.fencingTokens data.workflowId = some stored → data.fencingToken < stored) ∨
    w.checkpoints data.workflowId data.position = none ∨ data.StoredIn w

/-- A row that holds a key and a value answers a lease request for the key
with the value. -/
theorem replayReply_of_stored {row : Checkpoint} {idempotencyKey : String} {value : Bytes}
    (hk : row.idempotencyKey = idempotencyKey) (hv : row.value = some value) :
    replayReply row idempotencyKey =
      .ok (.leaseCheckpoint { response := some (.CheckpointValue value) }) := by
  simp [replayReply, hk, hv]

/-- What a handled checkpoint stored is replayed until cleanup. -/
theorem replayedBy_of_stored (hr : s.Reached evictable)
    {later earlier : List Handled} {h : Handled} (hh : s.history = later ++ h :: earlier)
    {data : CheckpointInput}
    (hs : data.StoredIn h.after) : data.ReplayedBy later := by
  obtain ⟨row, hrow, hk, hv⟩ := hs
  intro newer g older hl hu fencingToken leaseTimeout hg
  rw [hl, List.append_assoc, List.cons_append] at hh
  obtain ⟨hbefore, env, hf, hhandle⟩ := Server.reachable_of_history hr hh
  obtain ⟨createdAt, hc⟩ := Server.row_persists hbefore rfl hu hrow
  have hreply := congrArg Prod.fst hhandle
  rw [hg, handle_leaseCheckpoint_of_row hf hc] at hreply
  rw [show g.reply = _ from hreply]
  exact replayReply_of_stored hk hv

/-- A checkpoint accepted without abort finds a token no newer than its own. -/
theorem token_of_acknowledged {env : Env} (hf : env.fault = .none) {w : World}
    {data : CheckpointInput}
    (h : ((Request.checkpoint data).handle env w).1 = .ok (.checkpoint { abort := false })) :
    ∃ stored, w.fencingTokens data.workflowId = some stored ∧ ¬ data.fencingToken < stored := by
  obtain ⟨stored, ht, ha, -⟩ := (handle_checkpoint_ok_iff hf w data false).mp h
  exact ⟨stored, ht, of_decide_eq_false ha.symm⟩

/-- An accepted checkpoint leaves its row exactly where there was none, or
where the row already was its own. -/
theorem storedIn_after_iff {env : Env} (hf : env.fault = .none) {w : World}
    {data : CheckpointInput} {abort : Bool}
    (h : ((Request.checkpoint data).handle env w).1 = .ok (.checkpoint { abort := abort })) :
    data.StoredIn ((Request.checkpoint data).handle env w).2 ↔
      w.checkpoints data.workflowId data.position = none ∨ data.StoredIn w := by
  unfold CheckpointInput.StoredIn
  rw [handle_checkpoint_checkpoints hf, if_pos ⟨abort, h⟩]
  cases w.checkpoints data.workflowId data.position with
  | none => simp [upsertCheckpoint]
  | some row => simp [upsertCheckpoint]

/-- **Acknowledgements in every run**: a checkpoint acknowledged without
abort is the stored one exactly when nothing stood in its way. -/
theorem acknowledged_honestly_iff (hr : s.Reached evictable) {later earlier : List Handled}
    {h : Handled} (hh : s.history = later ++ h :: earlier) {data : CheckpointInput}
    (hd : h.request = .checkpoint data) :
    h.AcknowledgedHonestly data later ↔ data.Unopposed h.before := by
  obtain ⟨-, env, hf, hhandle⟩ := Server.reachable_of_history hr hh
  rw [hd, Prod.ext_iff] at hhandle
  obtain ⟨hreply, hafter⟩ := hhandle
  dsimp only at hreply hafter
  constructor
  · intro hon
    by_cases hack : h.reply = .ok (.checkpoint { abort := false })
    · obtain ⟨hs, -⟩ := hon hack
      rw [hafter, storedIn_after_iff hf (hreply ▸ hack)] at hs
      exact .inr hs
    · left
      intro stored ht
      by_contra hlt
      refine hack (hreply.trans ?_)
      exact (handle_checkpoint_ok_iff hf h.before data false).mpr
        ⟨stored, ht, (decide_eq_false hlt).symm, fun hlt' => absurd hlt' hlt⟩
  · intro hun hack
    rw [hreply] at hack
    have hs : data.StoredIn h.after := by
      rw [hafter, storedIn_after_iff hf hack]
      rcases hun with hstale | hrow
      · obtain ⟨stored, ht, hlt⟩ := token_of_acknowledged hf hack
        exact absurd (hstale stored ht) hlt
      · exact hrow
    exact ⟨hs, replayedBy_of_stored hr hh hs⟩

/-- The checkpoint of the payment example: key `k`, value `[1]`. -/
def payment : CheckpointInput :=
  { workflowId := "pay", fencingToken := 1, position := 0, value := [1], idempotencyKey := "k" }

/-- Start the workflow and checkpoint its first position. -/
def startThenCheckpoint : List ServerLabel :=
  [.handle (.workflowStart { workflowId := "pay", name := none }) (.calm "" true),
    .handle (.checkpoint payment) (.calm "" true)]

/-- Start the workflow, generate a key for its first position, and
checkpoint the position under the key. -/
def startThenGenerateThenCheckpoint : List ServerLabel :=
  [.handle (.workflowStart { workflowId := "pay", name := none }) (.calm "" true),
    .handle (.generateIdempotencyKey { workflowId := "pay", fencingToken := 1, position := 0 })
      (.calm "k" true),
    .handle (.checkpoint payment) (.calm "" true)]

theorem first_checkpoint_acknowledged_honestly :
    ∃ s h earlier, exec (Server.step ttlPassed) { world := .empty 0, history := [] }
        startThenCheckpoint = some s ∧ s.history = h :: earlier ∧
      h.request = .checkpoint payment ∧ h.reply = .ok (.checkpoint { abort := false }) ∧
      h.AcknowledgedHonestly payment [] := by
  refine ⟨_, _, _, rfl, rfl, rfl, rfl, ?_⟩
  have hreached := Server.reached_of_exec 0 startThenCheckpoint
    (rfl : exec (Server.step ttlPassed) _ _ = some _)
  exact (acknowledged_honestly_iff hreached (List.nil_append _).symm rfl).mpr (.inr (.inl rfl))

/-- A placeholder row is acknowledged without abort and keeps its missing
value. -/
theorem placeholder_not_acknowledged_honestly :
    ∃ s h earlier, exec (Server.step ttlPassed) { world := .empty 0, history := [] }
        startThenGenerateThenCheckpoint = some s ∧ s.Reached ttlPassed ∧
      s.history = h :: earlier ∧ h.request = .checkpoint payment ∧
      h.reply = .ok (.checkpoint { abort := false }) ∧ ¬ payment.StoredIn h.after ∧
      ¬ h.AcknowledgedHonestly payment [] := by
  refine ⟨_, _, _, rfl, Server.reached_of_exec 0 startThenGenerateThenCheckpoint rfl,
    rfl, rfl, rfl, ?_, ?_⟩
  · rintro ⟨row, hrow, -, hv⟩
    cases hrow
    cases hv
  · intro hon
    obtain ⟨⟨row, hrow, -, hv⟩, -⟩ := hon rfl
    cases hrow
    cases hv

/-! ## Late results -/

/-- The request stores its value: there was no row, and now there is its
own. -/
def Handled.Stores (h : Handled) (data : CheckpointInput) : Prop :=
  h.before.checkpoints data.workflowId data.position = none ∧ data.StoredIn h.after

/-- The request carries a token older than the stored one. -/
def CheckpointInput.Superseded (data : CheckpointInput) (w : World) : Prop :=
  ∃ stored, w.fencingTokens data.workflowId = some stored ∧ data.fencingToken < stored

/-- A superseded request stores its value only under an unexpired lease
granted to its own token, and not once the lease last granted to that token
has expired.  `earlier` are the requests handled before, latest first. -/
def Handled.Fenced (h : Handled) (data : CheckpointInput) (earlier : List Handled) : Prop :=
  data.Superseded h.before → h.Stores data →
    (∃ leased, h.before.leaseAt data.workflowId data.position = some leased ∧
      ¬ leased.Expired h.before.now ∧
      lastGrant earlier data.workflowId data.position = some (data.fencingToken, leased)) ∧
    ∀ leased, lastGrantTo earlier data.workflowId data.position
      data.fencingToken = some leased →
      ¬ leased.Expired h.before.now

/-- Late results are held back by what is there when they arrive: a row, or
a lease that has expired or was last granted to the same token. -/
def CheckpointInput.HeldBack (data : CheckpointInput) (w : World)
    (earlier : List Handled) : Prop :=
  ¬ data.Superseded w ∨
    w.checkpoints data.workflowId data.position ≠ none ∨
    ∃ leased, w.leaseAt data.workflowId data.position = some leased ∧
      (leased.Expired w.now ∨ ∃ leased',
        lastGrant earlier data.workflowId data.position = some (data.fencingToken, leased'))

/-- A superseded request stores its value exactly where there is no row and
no expired lease: an unexpired lease is not asked whose it is. -/
theorem stores_iff_of_superseded {env : Env} (hf : env.fault = .none) {w : World}
    {data : CheckpointInput} (hs : data.Superseded w) :
    (w.checkpoints data.workflowId data.position = none ∧
        data.StoredIn ((Request.checkpoint data).handle env w).2) ↔
      w.checkpoints data.workflowId data.position = none ∧
        ∀ leased ∈ w.leaseAt data.workflowId data.position, ¬ leased.Expired w.now := by
  obtain ⟨stored, ht, hlt⟩ := hs
  refine and_congr_right fun hrow => ?_
  constructor
  · rintro ⟨row, hafter, -⟩
    rw [handle_checkpoint_checkpoints hf] at hafter
    split at hafter
    · next hok =>
        obtain ⟨abort, hok⟩ := hok
        obtain ⟨stored', ht', -, hl⟩ := (handle_checkpoint_ok_iff hf w data abort).mp hok
        rw [ht, Option.some.injEq] at ht'
        exact hl (ht' ▸ hlt)
    · rw [hrow] at hafter; contradiction
  · intro hl
    have hok : ((Request.checkpoint data).handle env w).1 =
      .ok (.checkpoint { abort := true }) :=
      (handle_checkpoint_ok_iff hf w data true).mpr
        ⟨stored, ht, (decide_eq_true hlt).symm, fun _ => hl⟩
    exact (storedIn_after_iff hf hok).mpr (.inl hrow)

/-- The lease granted last is also the one granted last to its own token. -/
theorem lastGrantTo_of_lastGrant {history : List Handled} {workflowId : String}
    {position token : Int} {leased : LeasedCheckpointValue}
    (h : lastGrant history workflowId position = some (token, leased)) :
    lastGrantTo history workflowId position token = some leased := by
  induction history with
  | nil => simp [lastGrant] at h
  | cons g history ih =>
      rw [lastGrant, List.findSome?_cons] at h
      rw [lastGrantTo, List.findSome?_cons]
      cases hg : g.grant workflowId position with
      | none =>
          rw [hg] at h
          exact ih h
      | some grant =>
          rw [hg, Option.some.injEq] at h
          simp [h, Option.filter]

/-- **Late results in every run**: a superseded request is fenced exactly when
something held it back. -/
theorem late_result_fenced_iff (hr : s.Reached evictable) {later earlier : List Handled}
    {h : Handled} (hh : s.history = later ++ h :: earlier) {data : CheckpointInput}
    (hd : h.request = .checkpoint data) :
    h.Fenced data earlier ↔ data.HeldBack h.before earlier := by
  obtain ⟨hbefore, env, hf, hhandle⟩ := Server.reachable_of_history hr hh
  rw [hd, Prod.ext_iff] at hhandle
  have hafter : h.after = ((Request.checkpoint data).handle env h.before).2 := hhandle.2
  have hstores (hsup : data.Superseded h.before) :=
    hafter ▸ @stores_iff_of_superseded env hf _ _ hsup
  constructor
  · intro hfenced
    by_cases hsup : data.Superseded h.before
    · by_cases hrow : h.before.checkpoints data.workflowId data.position = none
      · refine .inr (.inr ?_)
        by_cases hl : ∀ leased ∈ h.before.leaseAt data.workflowId data.position,
            ¬ leased.Expired h.before.now
        · obtain ⟨⟨leased, hleased, -, hlast⟩, -⟩ :=
            hfenced hsup ((hstores hsup).mpr ⟨hrow, hl⟩)
          exact ⟨leased, hleased, .inr ⟨leased, hlast⟩⟩
        · push Not at hl
          obtain ⟨leased, hleased, he⟩ := hl
          exact ⟨leased, hleased, .inl he⟩
      · exact .inr (.inl hrow)
    · exact .inl hsup
  · intro hheld hsup hst
    obtain ⟨hrow, hl⟩ := (hstores hsup).mp hst
    rcases hheld with hn | hn | ⟨leased, hleased, he | ⟨leased', hlast⟩⟩
    · exact absurd hsup hn
    · exact absurd hrow hn
    · exact absurd he (hl leased hleased)
    · obtain ⟨token, hcached⟩ := Server.lastGrant_of_cache hbefore hleased
      have hsame : (token, leased) = (data.fencingToken, leased') :=
        Option.some.inj (hcached.symm.trans hlast)
      cases hsame
      refine ⟨⟨leased, hleased, hl leased hleased, hlast⟩, fun leased' hto => ?_⟩
      rw [lastGrantTo_of_lastGrant hlast, Option.some.injEq] at hto
      exact hto ▸ hl leased hleased

/-- The lease request that precedes it. -/
def paymentLease : LeaseCheckpointInput :=
  { workflowId := "pay", fencingToken := 1, position := 0, leaseTimeout := 30000,
    idempotencyKey := "k" }

/-- A worker starts, is granted the first position and is overtaken; its
lease expires and is dropped, and its checkpoint arrives. -/
def overtakenThenEvicted : List ServerLabel :=
  [.handle (.workflowStart { workflowId := "pay", name := none }) (.calm "" true),
    .handle (.leaseCheckpoint paymentLease) (.calm "" true),
    .handle (.workflowStart { workflowId := "pay", name := none }) (.calm "" true),
    .tick 30000, .evict "pay:0",
    .handle (.checkpoint payment) (.calm "" true)]

/-- The same without the eviction. -/
def overtakenThenExpired : List ServerLabel :=
  [.handle (.workflowStart { workflowId := "pay", name := none }) (.calm "" true),
    .handle (.leaseCheckpoint paymentLease) (.calm "" true),
    .handle (.workflowStart { workflowId := "pay", name := none }) (.calm "" true),
    .tick 30000,
    .handle (.checkpoint payment) (.calm "" true)]

theorem expired_late_result_fenced :
    ∃ s h earlier, exec (Server.step ttlPassed) { world := .empty 0, history := [] }
        overtakenThenExpired = some s ∧ s.history = h :: earlier ∧
      h.request = .checkpoint payment ∧ payment.Superseded h.before ∧
        h.Fenced payment earlier := by
  refine ⟨_, _, _, rfl, rfl, rfl, ⟨2, rfl, by decide⟩, ?_⟩
  have hreached := Server.reached_of_exec 0 overtakenThenExpired
    (rfl : exec (Server.step ttlPassed) _ _ = some _)
  refine (late_result_fenced_iff hreached (List.nil_append _).symm rfl).mpr ?_
  exact .inr (.inr ⟨_, rfl, .inl (by decide)⟩)

/-- Once the expired lease has been dropped, nothing holds the late result
back. -/
theorem evicted_late_result_not_fenced :
    ∃ s h earlier, exec (Server.step ttlPassed) { world := .empty 0, history := [] }
        overtakenThenEvicted = some s ∧ s.Reached ttlPassed ∧ s.history = h :: earlier ∧
      h.request = .checkpoint payment ∧ payment.Superseded h.before ∧ h.Stores payment ∧
      (∃ leased, lastGrantTo earlier "pay" 0 1 = some leased ∧ leased.Expired h.before.now) ∧
      ¬ h.Fenced payment earlier := by
  have hstores : ∀ h : Handled, h.before.checkpoints "pay" 0 = none →
      h.after.checkpoints "pay" 0 = some (payment.row 30000) → h.Stores payment :=
    fun h hb ha => ⟨hb, _, ha, rfl, rfl⟩
  refine ⟨_, _, _, rfl, Server.reached_of_exec 0 overtakenThenEvicted rfl, rfl, rfl,
    ⟨2, rfl, by decide⟩, hstores _ rfl rfl, ⟨_, rfl, by decide⟩, fun hfenced => ?_⟩
  obtain ⟨⟨leased, hleased, -⟩, -⟩ := hfenced ⟨2, rfl, by decide⟩ (hstores _ rfl rfl)
  cases hleased

/-! ## Durable keys -/

/-- Anything may happen but cleanup. -/
def Server.Spared (_ : Server) : ServerLabel → Prop
  | .handle request _ => request ≠ .cleanUp
  | .tick _ => True
  | .evict _ => True

/-- The states reached from `s` without cleanup. -/
def Server.Later (evictable : CachedLease → Int → Bool) (s s' : Server) : Prop :=
  Reachable (Server.step evictable) Server.Spared (· = s) s'

section DurableKey

variable (evictable) (s) (workflowId : String) (fencingToken position : Int)
  (idempotencyKey : String)

/-- The position is granted under the key. -/
def KeyLeases : Prop :=
  ∀ leaseTimeout env, env.fault = .none →
    ((Request.leaseCheckpoint
        { workflowId := workflowId, fencingToken := fencingToken, position := position,
          leaseTimeout := leaseTimeout, idempotencyKey := idempotencyKey }).handle
            env s.world).1 =
      granted

/-- Once a value is checkpointed under the key, later lease requests are
answered with it, whatever their token. -/
def KeyReplays (value : Bytes) : Prop :=
  let checkpoint : Request := .checkpoint
    { workflowId := workflowId, fencingToken := fencingToken, position := position
      value := value, idempotencyKey := idempotencyKey }
  ∀ s₁ env abort, s.Later evictable s₁ → env.fault = .none →
    (checkpoint.handle env s₁.world).1 = .ok (.checkpoint { abort := abort }) →
    ∀ s₂ env' token leaseTimeout, (s₁.record env checkpoint).Later evictable s₂ →
      env'.fault = .none →
      ((Request.leaseCheckpoint
          { workflowId := workflowId, fencingToken := token, position := position,
            leaseTimeout := leaseTimeout, idempotencyKey := idempotencyKey }).handle env'
        s₂.world).1 = .ok (.leaseCheckpoint { response := some (.CheckpointValue value) })

/-- Key requests for the position keep being answered with the key. -/
def KeyIsStable : Prop :=
  ∀ s' env token, s.Later evictable s' → env.fault = .none →
    ((Request.generateIdempotencyKey
        { workflowId := workflowId, fencingToken := token, position := position }).handle env
      s'.world).1 = .ok (.generateIdempotencyKey { idempotencyKey := idempotencyKey })

end DurableKey

/-- A stored key and value stay as long as there is no cleanup. -/
theorem Server.Later.row_persists {s' : Server} (hl : s.Later evictable s')
    {workflowId : String} {position : Int} {row : Checkpoint}
    (hrow : s.world.checkpoints workflowId position = some row) :
    ∃ createdAt, s'.world.checkpoints workflowId position =
      some { row with createdAt := createdAt } := by
  refine Reachable.invariant
    (fun t => ∃ createdAt, t.world.checkpoints workflowId position =
      some { row with createdAt := createdAt }) hl (fun t ht => ht ▸ ⟨row.createdAt, hrow⟩) ?_
  rintro t l t' ⟨createdAt, hc⟩ hspared hs
  rcases Server.step_cases hs with
    ⟨request, env, rfl, hf, rfl⟩ | ⟨elapsed, rfl, rfl⟩ | ⟨key, entry, rfl, -, -, rfl⟩
  · exact (handle_row_persists hf t.world hspared hc).imp fun createdAt' h' => h'
  · exact ⟨createdAt, hc⟩
  · exact ⟨createdAt, hc⟩

/-- **A durable key cannot be used**: in every state where the position has
no row, the current token's key request stores a key that is stable, leases
nothing, and under which no value is ever replayed. -/
theorem durable_key_unusable {workflowId : String} {token position : Int}
    (ht : s.world.fencingTokens workflowId = some token)
    (hrow : s.world.checkpoints workflowId position = none) {env : Env}
    (hf : env.fault = .none) :
    let generate : Request := .generateIdempotencyKey
      { workflowId := workflowId, fencingToken := token, position := position }
    (generate.handle env s.world).1 =
        .ok (.generateIdempotencyKey { idempotencyKey := env.minted }) ∧
      ¬ KeyLeases (s.record env generate) workflowId token position env.minted ∧
      (∀ value, ¬ KeyReplays evictable
        (s.record env generate) workflowId token position env.minted value) ∧
      KeyIsStable evictable (s.record env generate) workflowId position env.minted := by
  intro generate
  have hgen : generate.handle env s.world = _ :=
    handle_generateIdempotencyKey_of_current hf hrow ht
  have hplaceholder : (s.record env generate).world.checkpoints workflowId position =
      some { idempotencyKey := env.minted, value := none, createdAt := s.world.now } := by
    simp only [Server.record, generate, hgen, World.setCheckpoint_checkpoints]
    simp
  have htoken : (s.record env generate).world.fencingTokens workflowId = some token := by
    simp only [Server.record, generate, hgen, World.setCheckpoint_fencingTokens]
    exact ht
  refine ⟨congrArg Prod.fst hgen, fun hleases => ?_, fun value hreplays => ?_,
    fun s' env' token' hlater hf' => ?_⟩
  · have hreply := hleases 0 env hf
    rw [handle_leaseCheckpoint_of_row hf hplaceholder] at hreply
    exact replayReply_ne_granted _ _ hreply
  · have hack := (handle_checkpoint_ok_iff hf (s.record env generate).world
      { workflowId := workflowId, fencingToken := token, position := position, value := value,
        idempotencyKey := env.minted } false).mpr
      ⟨token, htoken, by simp, fun hlt => absurd hlt (lt_irrefl token)⟩
    have hkept : ∃ createdAt, ((s.record env generate).record env (.checkpoint
        { workflowId := workflowId, fencingToken := token, position := position, value := value,
          idempotencyKey := env.minted })).world.checkpoints workflowId position =
        some { idempotencyKey := env.minted, value := none, createdAt := createdAt } :=
      handle_row_persists hf _ (by simp) hplaceholder
    obtain ⟨createdAt, hkept⟩ := hkept
    have hreply := hreplays _ env false (.start rfl) hf hack _ env token 0 (.start rfl) hf
    rw [handle_leaseCheckpoint_of_row hf hkept] at hreply
    simp [replayReply] at hreply
  · obtain ⟨createdAt, hc⟩ := hlater.row_persists hplaceholder
    rw [handle_generateIdempotencyKey_of_row hf' hc]

theorem payment_key_unusable :
    let started : Server := (Server.mk (.empty 0) []).record (.calm "" true)
      (.workflowStart { workflowId := "pay", name := none })
    let generated := started.record (.calm "k" true)
      (.generateIdempotencyKey { workflowId := "pay", fencingToken := 1, position := 0 })
    ¬ KeyLeases generated "pay" 1 0 "k" ∧ ¬ KeyReplays ttlPassed generated "pay" 1 0 "k" [1] ∧
      KeyIsStable ttlPassed generated "pay" 0 "k" := by
  intro started generated
  have hmint : (Env.calm "k" true).fault = .none := rfl
  have htoken : started.world.fencingTokens "pay" = some 1 := rfl
  have hrow : started.world.checkpoints "pay" 0 = none := rfl
  obtain ⟨-, hleases, hreplays, hstable⟩ := durable_key_unusable htoken hrow hmint
  exact ⟨hleases, hreplays [1], hstable⟩

/-- After the payment example has generated its key, the lease under the key
is refused, and so is every lease after the acknowledged checkpoint. -/
theorem payment_key_refused :
    let started := (Server.mk (.empty 0) []).record (.calm "" true)
      (.workflowStart { workflowId := "pay", name := none })
    let generated := started.record (.calm "k" true)
      (.generateIdempotencyKey { workflowId := "pay", fencingToken := 1, position := 0 })
    let checkpointed := generated.record (.calm "" true) (.checkpoint payment)
    started.Reached ttlPassed ∧
      generated.history.head?.map Handled.reply =
        some (.ok (.generateIdempotencyKey { idempotencyKey := "k" })) ∧
      checkpointed.history.head?.map Handled.reply =
        some (.ok (.checkpoint { abort := false })) ∧
      ((Request.leaseCheckpoint paymentLease).handle (.calm "" true) generated.world).1 =
        .error (.io .InvalidData "checkpoint_value_not_found") ∧
      ((Request.leaseCheckpoint paymentLease).handle (.calm "" true) checkpointed.world).1 =
        .error (.io .InvalidData "checkpoint_value_not_found") ∧
      ¬ KeyLeases generated "pay" 1 0 "k" ∧
        ¬ KeyReplays ttlPassed generated "pay" 1 0 "k" [1] := by
  refine ⟨Server.reached_of_exec 0
    [.handle (.workflowStart { workflowId := "pay", name := none }) (.calm "" true)] rfl,
    rfl, rfl, rfl, rfl, fun hleases => ?_, fun hreplays => ?_⟩
  · cases hleases 30000 (.calm "" true) rfl
  · cases hreplays _ (.calm "" true) false (.start rfl) rfl rfl _ (.calm "" true) 1 30000
      (.start rfl) rfl

/-! ## Redelivered checkpoints -/

/-- Two worlds differ at most in when the row of a position was written. -/
structure World.SameButCreatedAt (w w' : World) (workflowId : String)
    (position : Int) : Prop where
  workflows : w'.workflows = w.workflows
  fencingTokens : w'.fencingTokens = w.fencingTokens
  cache : w'.cache = w.cache
  elsewhere : ∀ id p, ¬ (id = workflowId ∧ p = position) →
    w'.checkpoints id p = w.checkpoints id p
  row : (w'.checkpoints workflowId position).map (fun row => (row.idempotencyKey, row.value)) =
    (w.checkpoints workflowId position).map fun row => (row.idempotencyKey, row.value)

/-- Handled now and again at `later`, with nothing in between, the request is
answered the same, and the second time changes nothing but when the row was
written. -/
def CheckpointInput.StableUnderRedelivery (data : CheckpointInput) (env env' : Env) (w : World)
    (later : Int) : Prop :=
  let first := (Request.checkpoint data).handle env w
  let second := (Request.checkpoint data).handle env' { first.2 with now := later }
  second.1 = first.1 ∧ first.2.SameButCreatedAt second.2 data.workflowId data.position

/-- The request's token is superseded, and an expired lease is still cached. -/
def CheckpointInput.RefusedLate (data : CheckpointInput) (w : World) : Prop :=
  ∃ stored, w.fencingTokens data.workflowId = some stored ∧ data.fencingToken < stored ∧
    ∃ leased ∈ w.leaseAt data.workflowId data.position, leased.Expired w.now

section Redelivery

variable {env : Env} (hf : env.fault = .none)

theorem leaseAt_dropLease (w : World) (workflowId : String) (position : Int) :
    (w.dropLease workflowId position).leaseAt workflowId position = none := by
  simp [World.leaseAt, World.dropLease, World.setCache_cache]

theorem setCache_of_none {w : World} {key : String} (h : w.cache key = none) :
    w.setCache key none = w := by
  have hcache : Function.update w.cache key none = w.cache := by
    rw [← h, Function.update_eq_self]
  rw [World.setCache, hcache]

theorem dropLease_of_none {w : World} {workflowId : String} {position : Int}
    (h : w.leaseAt workflowId position = none) : w.dropLease workflowId position = w := by
  rw [World.leaseAt, Option.map_eq_none_iff] at h
  exact setCache_of_none h

include hf

/-- Where no lease is cached, a checkpoint is refused only for want of a token. -/
theorem handle_checkpoint_without_lease {w : World} (data : CheckpointInput)
    (hlease : w.leaseAt data.workflowId data.position = none) :
    (Request.checkpoint data).handle env w =
      match w.fencingTokens data.workflowId with
      | none => (.error (.io .NotFound "fencing_token_not_found"), w)
      | some stored =>
        (.ok (.checkpoint { abort := decide (data.fencingToken < stored) }),
          w.setCheckpoint data.workflowId data.position
            (upsertCheckpoint (w.checkpoints data.workflowId data.position)
              data.idempotencyKey (some data.value) w.now)) := by
  rw [handle_checkpoint, run_handleCheckpoint hf, hlease, dropLease_of_none hlease]
  cases w.fencingTokens data.workflowId with
  | none => rfl
  | some stored => simp [Except.map]

/-- **What a checkpoint does**: it takes the lease away, and stores the value
unless there is no token or it is refused for an expired lease. -/
theorem handle_checkpoint_cases (data : CheckpointInput) (w : World) :
    (w.fencingTokens data.workflowId = none ∧ (Request.checkpoint data).handle env w =
        (.error (.io .NotFound "fencing_token_not_found"),
          w.dropLease data.workflowId data.position)) ∨
      (data.RefusedLate w ∧ (Request.checkpoint data).handle env w =
        (.error (.io .InvalidData "fencing_token_expired"),
          w.dropLease data.workflowId data.position)) ∨
      ∃ stored, w.fencingTokens data.workflowId = some stored ∧ ¬ data.RefusedLate w ∧
        (Request.checkpoint data).handle env w =
          (.ok (.checkpoint { abort := decide (data.fencingToken < stored) }),
            (w.dropLease data.workflowId data.position).setCheckpoint data.workflowId
              data.position (upsertCheckpoint (w.checkpoints data.workflowId data.position)
                data.idempotencyKey (some data.value) w.now)) := by
  rw [handle_checkpoint, run_handleCheckpoint hf]
  cases htoken : w.fencingTokens data.workflowId with
  | none => exact .inl ⟨rfl, rfl⟩
  | some stored =>
      dsimp only
      split
      · next hrefused => exact .inr (.inl ⟨⟨stored, htoken, hrefused⟩, rfl⟩)
      · next haccepted =>
          refine .inr (.inr ⟨stored, rfl, fun hrefused => ?_, rfl⟩)
          obtain ⟨stored', hstored, hlate⟩ := hrefused
          rw [htoken, Option.some.injEq] at hstored
          exact haccepted (hstored ▸ hlate)

/-- **Redelivered checkpoints**: the second delivery goes the way of the first
exactly where the first is not refused for an expired lease, which it takes
away. -/
theorem redelivery_stable_iff {env' : Env} (hf' : env'.fault = .none) (data : CheckpointInput)
    (w : World) (later : Int) :
    data.StableUnderRedelivery env env' w later ↔ ¬ data.RefusedLate w := by
  have hdropped := leaseAt_dropLease w data.workflowId data.position
  rw [CheckpointInput.StableUnderRedelivery]
  rcases handle_checkpoint_cases hf data w with
    ⟨htoken, heq⟩ | ⟨hrefused, heq⟩ | ⟨stored, htoken, haccepted, heq⟩
  · have hsecond := handle_checkpoint_without_lease hf'
      (w := { w.dropLease data.workflowId data.position with now := later }) data hdropped
    have hnone : (w.dropLease data.workflowId data.position).fencingTokens data.workflowId =
        none := htoken
    rw [heq]
    dsimp only at hsecond ⊢
    rw [hsecond, hnone]
    refine ⟨fun _ hrefused => ?_, fun _ => ⟨rfl, rfl, rfl, rfl, fun _ _ _ => rfl, rfl⟩⟩
    obtain ⟨stored, hstored, -⟩ := hrefused
    rw [htoken] at hstored
    contradiction
  · obtain ⟨stored, htoken, -⟩ := id hrefused
    have hsecond := handle_checkpoint_without_lease hf'
      (w := { w.dropLease data.workflowId data.position with now := later }) data hdropped
    have hstored : (w.dropLease data.workflowId data.position).fencingTokens data.workflowId =
        some stored := htoken
    rw [heq]
    dsimp only at hsecond ⊢
    rw [hsecond, hstored]
    simp [hrefused]
  · have hsecond := handle_checkpoint_without_lease hf'
      (w := { (w.dropLease data.workflowId data.position).setCheckpoint data.workflowId
        data.position (upsertCheckpoint (w.checkpoints data.workflowId data.position)
          data.idempotencyKey (some data.value) w.now) with now := later }) data hdropped
    have hstored : ((w.dropLease data.workflowId data.position).setCheckpoint data.workflowId
        data.position (upsertCheckpoint (w.checkpoints data.workflowId data.position)
          data.idempotencyKey (some data.value) w.now)).fencingTokens data.workflowId =
        some stored := htoken
    rw [heq]
    dsimp only at hsecond ⊢
    rw [hsecond, hstored]
    refine ⟨fun _ => haccepted, fun _ => ⟨rfl, rfl, rfl, rfl, fun id p hne => ?_, ?_⟩⟩
    · simp [World.setCheckpoint_checkpoints, hne]
    · simp [World.setCheckpoint_checkpoints, upsertCheckpoint]

end Redelivery

/-- The world of a superseded worker whose lease has run out. -/
def overtakenWorld : World :=
  ((World.empty 2000).setFencingToken "pay" 2).setCache (generateLeasedCheckpointKey "pay" 0)
    (some (grantedLease 1000 0))

/-- The first checkpoint of a worker is stable under redelivery. -/
theorem current_redelivery_stable :
    payment.StableUnderRedelivery (.calm "" true) (.calm "" true)
      ((World.empty 0).setFencingToken "pay" 1) 10 := by
  refine (redelivery_stable_iff rfl rfl payment _ 10).mpr ?_
  rintro ⟨stored, hstored, hlt, -⟩
  cases hstored
  exact absurd hlt (by decide)

/-- The value of a superseded worker is refused, and stored when the request
is repeated. -/
theorem refused_value_stored :
    ((Request.checkpoint payment).handle (.calm "" true) overtakenWorld).1 =
        .error (.io .InvalidData "fencing_token_expired") ∧
      ((Request.checkpoint payment).handle
        (.calm "" true) overtakenWorld).2.checkpoints "pay" 0 =
        none ∧
      ((Request.checkpoint payment).handle (.calm "" true)
        ((Request.checkpoint payment).handle (.calm "" true) overtakenWorld).2).2.checkpoints
          "pay" 0 = some { idempotencyKey := "k", value := some [1], createdAt := 2000 } ∧
      ¬ payment.StableUnderRedelivery (.calm "" true) (.calm "" true) overtakenWorld 2000 := by
  refine ⟨rfl, rfl, rfl, ?_⟩
  rintro ⟨hreply, -⟩
  cases hreply

end IdempotentTransformer
