import IdempotentTransformer.Durability
import IdempotentTransformer.Client.Execute

/-!
# IdempotentTransformer.Transport

A serialized result on its way: set in the request of a checkpoint call,
stored in the row of its position, read by a later lease call.

The adapter hands every result to the setter of a `bytes` field, which takes
a string as base64 text, and reads the field back as bytes: binary results
come back as they were sent, textual ones never do (`wire_keeps_iff`).
-/

namespace IdempotentTransformer

open Library

variable {evictable : CachedLease → Int → Bool} {P : Handlers}

/-! ## Base64 -/

/-- The digit a character stands for. -/
def base64Digit (c : Char) : Option Nat :=
  if 'A' ≤ c ∧ c ≤ 'Z' then some (c.toNat - 65)
  else if 'a' ≤ c ∧ c ≤ 'z' then some (c.toNat - 71)
  else if '0' ≤ c ∧ c ≤ '9' then some (c.toNat + 4)
  else if c = '+' ∨ c = '-' then some 62
  else if c = '/' ∨ c = '_' then some 63
  else none

/-- Four digits make three bytes. -/
def base64Bytes : List Nat → Bytes
  | a :: b :: c :: d :: digits =>
      UInt8.ofNat (a * 4 + b / 16) :: UInt8.ofNat (b % 16 * 16 + c / 4) ::
        UInt8.ofNat (c % 4 * 64 + d) :: base64Bytes digits
  | [a, b, c] => [UInt8.ofNat (a * 4 + b / 16), UInt8.ofNat (b % 16 * 16 + c / 4)]
  | [a, b] => [UInt8.ofNat (a * 4 + b / 16)]
  | _ => []

/-- A string set in a `bytes` field is taken as base64 text. -/
def base64Wire : Wire :=
  { ofText := fun text => base64Bytes (text.toList.filterMap base64Digit) }

/-! ## Stored -/

/-- The row of a position comes to be for a checkpoint call that carries `x`. -/
def StoresSent (wire : Wire) (e : StorageEvent) (workflowId : String) (x : TSerialized)
    (fencingToken position : Int) (idempotencyKey : String) : Prop :=
  e.tag = GrpcAdapter.request wire
      (.checkpoint workflowId x fencingToken position idempotencyKey) ∧
    e.before.checkpoints workflowId position = none ∧
    e.after.checkpoints workflowId position ≠ none

/-- A row comes to be by an insert. -/
theorem StorageCall.exec_new_row (env : Env) (call : StorageCall) (w : World)
    {workflowId : String} {position : Int} (hnone : w.checkpoints workflowId position = none) :
    (call.exec env w).2.checkpoints workflowId position = none ∨
      ∃ idempotencyKey value createdAt,
        call = .insertCheckpoint workflowId position idempotencyKey value createdAt ∧
        (call.exec env w).2.checkpoints workflowId position =
          some
            { idempotencyKey := idempotencyKey, value := value, createdAt := createdAt } := by
  refine exec_preserves env call w (fun w' => w'.checkpoints workflowId position = none ∨
    ∃ idempotencyKey value createdAt,
      call = .insertCheckpoint workflowId position idempotencyKey value createdAt ∧
      w'.checkpoints workflowId position =
        some { idempotencyKey := idempotencyKey, value := value, createdAt := createdAt })
    (.inl hnone) fun _ => ?_
  cases call with
  | insertCheckpoint workflowId' position' idempotencyKey value createdAt =>
      simp only [effect, exec, Fault.apply, World.setCheckpoint_checkpoints]
      split
      · next heq =>
          obtain ⟨rfl, rfl⟩ := heq
          rw [hnone]
          exact .inr ⟨idempotencyKey, value, createdAt, rfl, rfl⟩
      · exact .inl hnone
  | deleteCheckpoints currentTimestamp status =>
      left
      simp only [effect, exec, Fault.apply, hnone, ite_self]
  | updateWorkflow expireAt status completedAt id =>
      left
      rw [effect_updateWorkflow env w World.checkpoints fun _ _ => rfl]
      exact hnone
  | _ => exact .inl hnone

/-- A checkpoint request inserts the key and the value it carries. -/
private theorem checkpoint_inserts (data : CheckpointInput) :
    (Request.checkpoint data).handler.Obeys
      (fun _ call => ∀ workflowId position idempotencyKey value createdAt,
        call = .insertCheckpoint workflowId position idempotencyKey value createdAt →
          idempotencyKey = data.idempotencyKey ∧ value = some data.value)
      (fun _ _ => True) [] := by
  show (handleCheckpoint data >>= fun output => pure (Response.checkpoint output)).Obeys _ _ _
  rw [Handler.obeys_bind]
  have hthen : ∀ log' r, Handler.Then (fun _ call =>
      ∀ workflowId position idempotencyKey value createdAt,
        call = StorageCall.insertCheckpoint workflowId position idempotencyKey value createdAt →
          idempotencyKey = data.idempotencyKey ∧ value = some data.value) (fun _ _ => True)
      (fun output => (pure (Response.checkpoint output) : Handler Response)) log' r :=
    fun log' r => by cases r <;> trivial
  refine obeys_handleCheckpoint data (fun _ _ _ _ h => h) (fun _ _ _ _ _ h => by cases h)
    (fun _ _ _ _ _ h => by cases h) (fun _ _ _ _ _ _ h => by cases h)
    (fun _ _ _ _ _ _ _ h => by cases h) ?_ (fun _ _ => hthen _ _) (fun _ _ _ => hthen _ _)
  intro log' stored createdAt _ _ workflowId position idempotencyKey value createdAt' h
  cases h
  exact ⟨rfl, rfl⟩

/-- **What is stored is what was sent.** -/
theorem stored_row (hr : P.Reached evictable) {wire : Wire} {e : StorageEvent}
    (he : e ∈ P.trace) {workflowId idempotencyKey : String} {x : TSerialized}
    {fencingToken position : Int}
    (hs : StoresSent wire e workflowId x fencingToken position idempotencyKey) :
    ∃ createdAt, e.after.checkpoints workflowId position =
      some { idempotencyKey := idempotencyKey, value := some (GrpcAdapter.setValue wire x)
             createdAt := createdAt } := by
  obtain ⟨htag, hnone, hsome⟩ := hs
  obtain ⟨later, earlier, hsplit⟩ := List.append_of_mem he
  obtain ⟨env, hafter⟩ := hr.after_eq he
  rw [hafter] at hsome ⊢
  obtain ⟨key, value, createdAt, hop, hrow⟩ :=
    (StorageCall.exec_new_row env e.op e.before hnone).resolve_left hsome
  have hobeys := checkpoint_inserts
    { workflowId := workflowId, fencingToken := fencingToken, position := position,
      value := GrpcAdapter.setValue wire x, idempotencyKey := idempotencyKey }
  have htag : e.tag = .checkpoint _ := htag
  rw [← htag] at hobeys
  obtain ⟨rfl, rfl⟩ := hr.sound.obeyed hsplit hobeys _ _ _ _ _ hop
  exact ⟨createdAt, hrow⟩

/-! ## Read back -/

/-- The answer to a lease request makes `execute` deserialize `x`, wherever it
waits for it. -/
def Yields (result : Except HandlerError Response) (x : TSerialized) : Prop :=
  ∃ reply, GrpcAdapter.settle result = some (.ok reply) ∧
    ∀ (V : Type) (c : ExecuteCall) (r : Runner) (errorCount : Nat) (now : Int),
      c.resume r (.leasing errorCount : Phase V) (.reply (.ok reply) now) =
        some { runner := r, phase := .deserializing x errorCount, call := none }

/-- The answer to a lease request makes `execute` start its task. -/
def TakenForGrant (result : Except HandlerError Response) : Prop :=
  ∃ reply, GrpcAdapter.settle result = some (.ok reply) ∧
    ∃ (V : Type) (c : ExecuteCall) (r : Runner) (errorCount : Nat) (now : Int) (turn : Turn V)
      (beforeExecution : Int),
      c.resume r (.leasing errorCount) (.reply (.ok reply) now) = some turn ∧
        turn.phase = .running beforeExecution

/-- A stored value is read back as bytes, whatever they are. -/
theorem yields_value (value : Bytes) :
    Yields (.ok (.leaseCheckpoint { response := some (.CheckpointValue value) }))
      (.bytes value) :=
  ⟨.leaseCheckpoint (some (.bytes value)) (some 0), rfl, fun _ _ _ _ _ => rfl⟩

/-- A call without options. -/
def plainCall : ExecuteCall :=
  { idempotencyKey := "", options := { leaseTimeout := none, onAbort := none } }

/-- A lease answer yields one value at most. -/
theorem Yields.unique {result : Except HandlerError Response} {x y : TSerialized}
    (hx : Yields result x) (hy : Yields result y) : x = y := by
  obtain ⟨reply, hreply, hx⟩ := hx
  obtain ⟨reply', hreply', hy⟩ := hy
  rw [hreply] at hreply'
  cases hreply'
  have h := (hx Unit plainCall (Runner.start "" none 0) 0 0).symm.trans
    (hy Unit plainCall (Runner.start "" none 0) 0 0)
  cases h
  rfl

/-- An answer that yields a value starts no task. -/
theorem Yields.not_takenForGrant {result : Except HandlerError Response} {x : TSerialized}
    (hx : Yields result x) : ¬ TakenForGrant result := by
  rintro ⟨reply', hreply', V, c, r, errorCount, now, turn, beforeExecution, hturn, hphase⟩
  obtain ⟨reply, hreply, hx⟩ := hx
  rw [hreply] at hreply'
  cases hreply'
  rw [hx V c r errorCount now] at hturn
  cases hturn
  cases hphase

/-- **The wire keeps binary results, and no others**: a lease request that reads
the row stored for a checkpoint call of `x` under the same key yields `x`
exactly if `x` is binary, and is never taken for a grant. -/
theorem wire_keeps_iff (hr : P.Reached evictable) {wire : Wire}
    {later earlier : List StorageEvent} {e : StorageEvent}
    (he : P.trace = later ++ e :: earlier) {workflowId idempotencyKey : String}
    {x : TSerialized} {fencingToken position : Int}
    (hstored : StoresSent wire e workflowId x fencingToken position idempotencyKey)
    {newer older : List StorageEvent} {r : StorageEvent} (hl : later = newer ++ r :: older)
    (hnot : ∀ g ∈ older, ¬ DeletesRow g workflowId position) {fencingToken' leaseTimeout : Int}
    (ht : r.tag = GrpcAdapter.request wire
      (.leaseCheckpoint workflowId fencingToken' leaseTimeout position idempotencyKey))
    (hread : ReadsRow r workflowId position) :
    ∃ q result, P.procs r.pid = some q ∧ q.rest = .ret result ∧
      (Yields result x ↔ ∃ bytes, x = .bytes bytes) ∧ ¬ TakenForGrant result := by
  obtain ⟨createdAt, hrow⟩ := stored_row hr (by rw [he]; simp) hstored
  obtain ⟨-, hreplays⟩ := stored_checkpoint_replays hr he hrow
  obtain ⟨-, -, q, hq, -, hvalue⟩ := hreplays newer r older _ hl hnot ht rfl rfl hread
  have hyields := yields_value (GrpcAdapter.setValue wire x)
  refine ⟨q, _, hq, hvalue rfl _ rfl, ⟨fun hx => ⟨_, hx.unique hyields⟩, ?_⟩,
    hyields.not_takenForGrant⟩
  rintro ⟨bytes, rfl⟩
  exact hyields

/-- A result is saved, and a lease request reads its row. -/
def carried (x : TSerialized) : List (Pool.Label Request Env Drift) :=
  arrives 0 payStart 5 ++
    arrives 1 (GrpcAdapter.request base64Wire (.checkpoint "pay" x 1 0 "k")) 6 ++
    arrives 2 (GrpcAdapter.request base64Wire (.leaseCheckpoint "pay" 1 30000 0 "k")) 1

/-- Two bytes come back. -/
theorem bytes_kept :
    ∃ P, runLabels (carried (.bytes [1, 2])) = some P ∧ ∃ q result, P.procs 2 = some q ∧
      q.rest = .ret result ∧ Yields result (.bytes [1, 2]) ∧ ¬ TakenForGrant result := by
  obtain ⟨P, hP⟩ : ∃ P, runLabels (carried (.bytes [1, 2])) = some P :=
    Option.isSome_iff_exists.mp rfl
  have hlast : (P.trace.take 2).map (fun e => (e.pid, e.tag, e.before.checkpoints "pay" 0)) =
      [(2, payLease 1, some { idempotencyKey := "k", value := some [1, 2], createdAt := 0 }),
        (1, GrpcAdapter.request base64Wire
          (.checkpoint "pay" (.bytes [1, 2]) 1 0 "k"), none)] :=
    eq_of_runLabels hP
      (fun P => (P.trace.take 2).map fun e => (e.pid, e.tag, e.before.checkpoints "pay" 0))
      (by decide +kernel)
  have hafter : (P.trace.drop 1).head?.map (fun e => e.after.checkpoints "pay" 0) =
      some (some { idempotencyKey := "k", value := some [1, 2], createdAt := 0 }) :=
    eq_of_runLabels hP (fun P => (P.trace.drop 1).head?.map
      fun e => e.after.checkpoints "pay" 0) (by decide +kernel)
  have hread : P.trace.head?.map (fun e => (⟨e.op, e.reply⟩ : (op : StorageCall) × op.Reply)) =
      some ⟨.selectCheckpoint "pay" 0,
        Except.ok (some { position := 0, idempotencyKey := "k", value := some [1, 2] })⟩ :=
    eq_of_runLabels hP (fun P => P.trace.head?.map
      fun e => (⟨e.op, e.reply⟩ : (op : StorageCall) × op.Reply)) rfl
  obtain ⟨r, e, earlier, htrace⟩ : ∃ r e earlier, P.trace = r :: e :: earlier := by
    match htrace : P.trace with
    | [] => simp [htrace] at hlast
    | [e] => simp [htrace] at hlast
    | r :: e :: earlier => exact ⟨r, e, earlier, rfl⟩
  rw [htrace] at hlast hafter hread
  simp only [List.take_succ_cons, List.take_zero, List.map_cons, List.map_nil, List.cons.injEq,
    Prod.mk.injEq] at hlast
  obtain ⟨⟨hpid, htag, -⟩, ⟨-, hetag, hnone⟩, -⟩ := hlast
  have hrow : e.after.checkpoints "pay" 0 = some _ := Option.some.inj hafter
  have hsome : e.after.checkpoints "pay" 0 ≠ none := by
    rw [hrow]
    simp
  obtain ⟨q, result, hq, hrest, hyields, hgrant⟩ := wire_keeps_iff (reached_of_runLabels hP)
    (show P.trace = [r] ++ e :: earlier from htrace) ⟨hetag, hnone, hsome⟩
    (show [r] = [] ++ r :: [] from rfl) (fun g hg => absurd hg List.not_mem_nil) htag
    ⟨_, Option.some.inj hread⟩
  exact ⟨P, hP, q, result, hpid ▸ hq, hrest, hyields.mpr ⟨_, rfl⟩, hgrant⟩

/-- The text `AQID` comes back as three bytes. -/
theorem text_lost :
    ∃ P, runLabels (carried (.text "AQID")) = some P ∧ ∃ q result, P.procs 2 = some q ∧
      q.rest = .ret result ∧ Yields result (.bytes [1, 2, 3]) ∧
      ¬ Yields result (.text "AQID") := by
  obtain ⟨P, hP⟩ : ∃ P, runLabels (carried (.text "AQID")) = some P :=
    Option.isSome_iff_exists.mp rfl
  have hrest : (P.procs 2).map Process.rest = some (.ret (.ok (.leaseCheckpoint
      { response := some (.CheckpointValue [1, 2, 3]) }))) :=
    eq_of_runLabels hP (fun P => (P.procs 2).map Process.rest) rfl
  obtain ⟨q, hq, hrest⟩ := Option.map_eq_some_iff.mp hrest
  have hyields := yields_value [1, 2, 3]
  refine ⟨P, hP, q, _, hq, hrest, hyields, fun htext => ?_⟩
  cases htext.unique hyields

end IdempotentTransformer
