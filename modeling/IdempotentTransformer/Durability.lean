import IdempotentTransformer.Interleaving

/-!
# IdempotentTransformer.Durability

Stored checkpoints in every interleaving of storage calls: a row keeps its
key and value until cleanup deletes it, and a lease request that reads it
is answered from it and does nothing else.
-/

namespace IdempotentTransformer

open Library Program

variable {evictable : CachedLease → Int → Bool} {P : Handlers}

/-- Cleanup deletes the row of the position. -/
def DeletesRow (e : StorageEvent) (workflowId : String) (position : Int) : Prop :=
  e.tag = .cleanUp ∧ e.before.checkpoints workflowId position ≠ none ∧
    e.after.checkpoints workflowId position = none

/-- The row holds the key and the value of `row`. -/
def World.Keeps (w : World) (workflowId : String) (position : Int) (row : Checkpoint) : Prop :=
  ∃ createdAt, w.checkpoints workflowId position = some { row with createdAt := createdAt }

/-- The call reads the row of the position. -/
def ReadsRow (e : StorageEvent) (workflowId : String) (position : Int) : Prop :=
  ∃ found : Option CheckpointValue, (⟨e.op, e.reply⟩ : (op : StorageCall) × op.Reply) =
    ⟨.selectCheckpoint workflowId position, Except.ok found⟩

/-! ## Rows are written once -/

/-- A call keeps the key and value of a row, or it is cleanup deleting it. -/
theorem keeps_or_deletes (hr : P.Reached evictable) {e : StorageEvent} (he : e ∈ P.trace)
    {workflowId : String} {position : Int} {row : Checkpoint}
    (h : e.before.Keeps workflowId position row) :
    e.after.Keeps workflowId position row ∨ DeletesRow e workflowId position := by
  obtain ⟨createdAt, hrow⟩ := h
  by_cases hop : ∃ currentTimestamp status, e.op = .deleteCheckpoints currentTimestamp status
  · obtain ⟨currentTimestamp, status, hop⟩ := hop
    obtain ⟨later, earlier, hsplit⟩ := List.append_of_mem he
    have htag := hr.calls hsplit
    rw [hop] at htag
    obtain ⟨env, hafter⟩ := hr.after_eq he
    rw [hop] at hafter
    cases hc : e.after.checkpoints workflowId position with
    | none => exact .inr ⟨htag, by rw [hrow]; simp, hc⟩
    | some row' =>
        left
        have hkept : e.after.checkpoints workflowId position = none ∨
            e.after.checkpoints workflowId position =
              e.before.checkpoints workflowId position := by
          rw [hafter]
          refine StorageCall.exec_preserves env _ e.before
            (fun w => w.checkpoints workflowId position = none ∨
              w.checkpoints workflowId position = e.before.checkpoints workflowId position)
            (.inr rfl) fun _ => ?_
          simp only [StorageCall.effect, StorageCall.exec, Fault.apply]
          split
          · exact .inl rfl
          · exact .inr rfl
        rcases hkept with hnone | hsame
        · rw [hc] at hnone; contradiction
        · exact ⟨createdAt, hsame.trans hrow⟩
  · left
    have hdelete : ∀ currentTimestamp status,
        e.op ≠ .deleteCheckpoints currentTimestamp status := fun c t h => hop ⟨c, t, h⟩
    obtain ⟨env, hafter⟩ := hr.after_eq he
    obtain ⟨createdAt', hrow'⟩ := StorageCall.exec_row env e.op e.before hdelete hrow
    exact ⟨createdAt', hafter ▸ hrow'⟩

theorem World.Keeps.of_drifts {w w' : World} (h : w.Drifts evictable w') {workflowId : String}
    {position : Int} {row : Checkpoint} (hk : w.Keeps workflowId position row) :
    w'.Keeps workflowId position row := by
  unfold World.Keeps at *
  rw [h.checkpoints]
  exact hk

/-- A stretch in which cleanup does not delete a row keeps it. -/
theorem keeps_of_span (hr : P.Reached evictable) {w w' : World} {es : List StorageEvent}
    (hes : es ⊆ P.trace) (hspan : Pool.Span (World.Drifts evictable) w es w')
    {workflowId : String} {position : Int} {row : Checkpoint}
    (hnot : ∀ g ∈ es, ¬ DeletesRow g workflowId position)
    (h : w.Keeps workflowId position row) : w'.Keeps workflowId position row := by
  refine hspan.preserves (I := fun w => w.Keeps workflowId position row)
    (fun _ _ hd => World.Keeps.of_drifts hd) (fun g hg hk => ?_) h
  exact (keeps_or_deletes hr (hes hg) hk).resolve_right (hnot g hg)

/-! ## Rows answer lease requests -/

/-- The lease handler's program once its row read is answered. -/
private def afterRowRead (data : LeaseCheckpointInput)
    (r : Except HiqliteError (Option CheckpointValue)) :
    Program StorageCall StorageCall.Reply String (Except HandlerError Response) :=
  match r with
  | .error e => .ret (.error (.hiqlite e))
  | .ok (some checkpoint) =>
    (answerFromRow checkpoint data.idempotencyKey >>= fun output =>
      pure (Response.leaseCheckpoint output)).program
  | .ok none => (leaseWithoutRow data >>= fun output =>
      pure (Response.leaseCheckpoint output)).program

private theorem program_leaseCheckpoint (data : LeaseCheckpointInput) :
    (Request.leaseCheckpoint data).handler.program =
      .call (.selectCheckpoint data.workflowId data.position) (afterRowRead data) := by
  rw [Request.handler, handleLeaseCheckpoint_eq]
  show Program.call _ _ = _
  congr 1
  funext r
  rcases r with e | _ | checkpoint <;> rfl

/-- A row is answered without another step. -/
private theorem afterRowRead_some (data : LeaseCheckpointInput) (checkpoint : CheckpointValue) :
    afterRowRead data (.ok (some checkpoint)) =
      .ret (replayReply
        { idempotencyKey := checkpoint.idempotencyKey, value := checkpoint.value,
                          createdAt := 0 } data.idempotencyKey) := by
  unfold afterRowRead answerFromRow replayReply
  by_cases hk : checkpoint.idempotencyKey = data.idempotencyKey
  · have hne : (checkpoint.idempotencyKey != data.idempotencyKey) = false := by simp [hk]
    simp only [hne]
    rw [if_neg (not_not.mpr hk)]
    cases checkpoint.value <;> rfl
  · have hne : (checkpoint.idempotencyKey != data.idempotencyKey) = true := by simp [hk]
    simp only [hne]
    rw [if_pos hk]
    rfl

/-- Once no row was found, the lease handler reads no row again. -/
private theorem reads_no_row_again (data : LeaseCheckpointInput) (log : CallLog) :
    Obeys (fun _ op => ∀ workflowId position, op ≠
      StorageCall.selectCheckpoint workflowId position)
      (fun _ _ => True) log (afterRowRead data (.ok none)) := by
  show (leaseWithoutRow data >>= fun output => pure
    (Response.leaseCheckpoint output)).Obeys _ _ _
  rw [Handler.obeys_bind]
  have hthen : ∀ log' r, Handler.Then (fun _ op => ∀ workflowId position,
      op ≠ StorageCall.selectCheckpoint workflowId position) (fun _ _ => True)
      (fun output => (pure (Response.leaseCheckpoint output) : Handler Response)) log' r :=
    fun log' r => by cases r <;> trivial
  exact obeys_leaseWithoutRow data (fun _ _ _ _ h => h) (fun _ _ => by simp)
    (fun _ _ => by simp)
    (fun _ _ _ _ => by simp) (fun _ _ _ _ _ _ _ _ _ => by simp) (fun _ _ => hthen _ _)
    (fun _ _ => hthen _ _) (fun _ _ _ _ => hthen _ _)

/-- **A lease request that has read a row is over**: the read is its only call,
and the row is its answer. -/
theorem answered_of_readsRow (hr : P.Reached evictable) {later earlier : List StorageEvent}
    {r : StorageEvent} (he : P.trace = later ++ r :: earlier) {data : LeaseCheckpointInput}
    (ht : r.tag = .leaseCheckpoint data) (hread : ReadsRow r data.workflowId data.position)
    {row : Checkpoint} (hrow : r.before.checkpoints data.workflowId data.position = some row) :
    Pool.logOf r.pid P.trace = [⟨r.op, r.reply⟩] ∧ r.after = r.before ∧
      ∃ q, P.procs r.pid = some q ∧ q.rest = .ret (replayReply row data.idempotencyKey) := by
  have hmem : r ∈ P.trace := by rw [he]; simp
  obtain ⟨found, hcall⟩ := hread
  obtain ⟨q, hq, hqt⟩ := hr.sound.tagged r hmem
  have htrail := hr.sound.trail r.pid q hq
  rw [hr.sound.logged r.pid q hq, hqt] at htrail
  obtain ⟨next, hcalled⟩ := hr.sound.called later r earlier he
  have hprogram : (serverMachine evictable).program r.tag =
      .call (.selectCheckpoint data.workflowId data.position) (afterRowRead data) := by
    rw [ht]
    exact program_leaseCheckpoint data
  rw [hprogram] at htrail hcalled
  have hop : r.op = .selectCheckpoint data.workflowId data.position := congrArg Sigma.fst hcall
  -- The read is the first call of its request: nothing that follows reads a row.
  have hfirst : Pool.logOf r.pid earlier = [] := by
    rcases hcalled.of_call with ⟨hnil, -⟩ | ⟨r₀, log', -, hrest⟩
    · exact hnil
    · exfalso
      rcases r₀ with e | _ | checkpoint
      · cases hrest.of_ret.2
      · exact (hrest.obeys (reads_no_row_again data [])).1 _ _ hop
      · rw [afterRowRead_some] at hrest
        cases hrest.of_ret.2
  rw [he, Pool.logOf_append_cons, hfirst] at htrail
  obtain ⟨r₀, log', hlog, hrest⟩ := htrail.of_call.resolve_left (by simp)
  obtain ⟨rfl, hentry⟩ := List.append_inj' hlog rfl
  have hreply := eq_of_heq (Sigma.mk.inj (hcall.symm.trans (List.cons.inj hentry).1)).2
  subst hreply
  have hexec : ∃ env, (serverMachine evictable).exec env
      (.selectCheckpoint data.workflowId data.position) r.before =
        (Except.ok found, r.after) := by
    obtain ⟨pid, tag, op, reply, before, after⟩ := r
    cases hcall
    exact hr.sound.executed _ hmem
  obtain ⟨env, hexec⟩ := hexec
  obtain ⟨hfound, hsame⟩ := Fault.apply_eq_ok hexec
  rw [hrow] at hfound
  subst hfound
  rw [Option.map_some, afterRowRead_some] at hrest
  obtain ⟨hnil, hret⟩ := hrest.of_ret
  refine ⟨?_, hsame, q, hq, hret⟩
  rw [he, Pool.logOf_append_cons, hfirst, hnil]
  rfl

/-! ## Stored checkpoints -/

/-- **Stored checkpoints are written once and replay faithfully**, in every
interleaving: from the call after which a row is there until cleanup deletes
it, its key and value stay, and a lease request that reads it makes no other
call, changes nothing, and is answered with the value, or refused if its key
is another one. -/
theorem stored_checkpoint_replays (hr : P.Reached evictable) {later earlier : List StorageEvent}
    {e : StorageEvent} (he : P.trace = later ++ e :: earlier) {workflowId : String}
    {position : Int} {row : Checkpoint}
    (hrow : e.after.checkpoints workflowId position = some row) :
    ((∀ g ∈ later, ¬ DeletesRow g workflowId position) →
        P.shared.Keeps workflowId position row) ∧
      ∀ newer r older data, later = newer ++ r :: older →
        (∀ g ∈ older, ¬ DeletesRow g workflowId position) → r.tag = .leaseCheckpoint data →
        data.workflowId = workflowId → data.position = position →
          ReadsRow r workflowId position →
        Pool.logOf r.pid P.trace = [⟨r.op, r.reply⟩] ∧ r.after = r.before ∧
          ∃ q, P.procs r.pid = some q ∧
            (row.idempotencyKey ≠ data.idempotencyKey → q.rest =
              .ret (.error (.io .Interrupted "non_deterministic_checkpoint_found"))) ∧
            (row.idempotencyKey = data.idempotencyKey →
              ∀ value, row.value = some value → q.rest =
              .ret (.ok (.leaseCheckpoint { response := some (.CheckpointValue value) }))) := by
  have hstart : e.after.Keeps workflowId position row := ⟨row.createdAt, hrow⟩
  have hsub : later ⊆ P.trace := by
    rw [he]
    exact List.subset_append_left later _
  refine ⟨fun hnot => keeps_of_span hr hsub (hr.sound.span_after he) hnot hstart, ?_⟩
  intro newer r older data hl hnot ht hw hp hread
  subst hl hw hp
  have he' : P.trace = newer ++ r :: (older ++ e :: earlier) := by
    rw [he]
    simp
  have holder : older ⊆ P.trace := fun g hg => by rw [he']; simp [hg]
  obtain ⟨createdAt, hfound⟩ :=
    keeps_of_span hr holder (hr.sound.span_between he') hnot hstart
  obtain ⟨hlog, hsame, q, hq, hrest⟩ := answered_of_readsRow hr he' ht hread hfound
  refine ⟨hlog, hsame, q, hq, fun hk => ?_, fun hk value hv => ?_⟩
  · rw [hrest, replayReply, if_pos hk]
  · rw [hrest, replayReply, if_neg (not_not.mpr hk)]
    simp only [hv]

/-- The first position is checkpointed, and a lease request reads its row. -/
def checkpointThenLease : List (Pool.Label Request Env Drift) :=
  arrives 0 payStart 5 ++ arrives 1 payCheckpoint 6 ++ arrives 2 (payLease 1) 1

theorem checkpoint_then_lease_replays :
    ∃ P, runLabels checkpointThenLease = some P ∧
      P.shared.Keeps "pay" 0 { idempotencyKey := "k", value := some [1], createdAt := 0 } ∧
      ∃ q, P.procs 2 = some q ∧
        q.rest = .ret (.ok (.leaseCheckpoint { response := some (.CheckpointValue [1]) })) := by
  obtain ⟨P, hP⟩ : ∃ P, runLabels checkpointThenLease = some P :=
    Option.isSome_iff_exists.mp rfl
  have hlast : (P.trace.take 2).map (fun e => (e.pid, e.tag, e.after.checkpoints "pay" 0)) =
      [(2, payLease 1, some { idempotencyKey := "k", value := some [1], createdAt := 0 }),
        (1, payCheckpoint,
          some { idempotencyKey := "k", value := some [1], createdAt := 0 })] :=
    eq_of_runLabels hP
      (fun P => (P.trace.take 2).map fun e => (e.pid, e.tag, e.after.checkpoints "pay" 0))
      (by decide +kernel)
  have hread : P.trace.head?.map
      (fun e => (⟨e.op, e.reply⟩ : (op : StorageCall) × op.Reply)) =
      some ⟨.selectCheckpoint "pay" 0,
        Except.ok (some { position := 0, idempotencyKey := "k", value := some [1] })⟩ :=
    eq_of_runLabels hP (fun P => P.trace.head?.map
      fun e => (⟨e.op, e.reply⟩ : (op : StorageCall) × op.Reply)) rfl
  obtain ⟨r, e, earlier, htrace⟩ : ∃ r e earlier, P.trace = r :: e :: earlier := by
    match htrace : P.trace with
    | [] => simp [htrace] at hlast
    | [e] => simp [htrace] at hlast
    | r :: e :: earlier => exact ⟨r, e, earlier, rfl⟩
  rw [htrace] at hlast hread
  simp only [List.take_succ_cons, List.take_zero, List.map_cons, List.map_nil, List.cons.injEq,
    Prod.mk.injEq] at hlast
  obtain ⟨⟨hpid, htag, -⟩, ⟨-, hetag, hrow⟩, -⟩ := hlast
  obtain ⟨hkeeps, hreplays⟩ := stored_checkpoint_replays (reached_of_runLabels hP)
    (show P.trace = [r] ++ e :: earlier from htrace) hrow
  have hnot : ∀ g ∈ [r], ¬ DeletesRow g "pay" 0 := by
    rintro g hg ⟨hclean, -⟩
    rw [List.mem_singleton.mp hg, htag] at hclean
    cases hclean
  obtain ⟨-, -, q, hq, -, hvalue⟩ := hreplays [] r [] _ rfl (by simp) htag rfl rfl
    ⟨_, Option.some.inj hread⟩
  exact ⟨P, hP, hkeeps hnot, q, hpid ▸ hq, hvalue rfl _ rfl⟩

end IdempotentTransformer
