import IdempotentTransformer.Library.Outcome
import IdempotentTransformer.Interleaving

/-!
# IdempotentTransformer.Effects

What an answer says about what its handler has done to the store, however
the handlers are interleaved and whichever calls fail.

* a request refused with one of the handlers' own errors has written
  nothing, and ended at most the lease of its own checkpoint;
* a request answered `Ok` had every call of its own acknowledged, but for the
  row of a start;
* no request writes a table twice.

`answers_account` collects the three.
-/

namespace IdempotentTransformer

open Library Program

variable {evictable : CachedLease → Int → Bool}

/-! ## Calls -/

/-- What a call writes to. -/
inductive Table
  | workflows
  | fencingTokens
  | checkpoints
  | leases
deriving DecidableEq, Repr

def StorageCall.table : StorageCall → Option Table
  | .insertWorkflow .. | .updateWorkflow .. | .deleteWorkflows .. => some .workflows
  | .insertFencingToken .. | .deleteFencingTokens .. => some .fencingTokens
  | .insertCheckpoint .. | .deleteCheckpoints .. => some .checkpoints
  | .cachePut .. | .cacheDelete .. => some .leases
  | _ => none

/-- The error a call was told. -/
def StorageCall.error? : (call : StorageCall) → call.Reply → Option HiqliteError
  | .selectCheckpoint _ _, .error e => some e
  | .insertCheckpoint _ _ _ _ _, .error e => some e
  | .selectFencingToken _, .error e => some e
  | .insertFencingToken _ _, .error e => some e
  | .insertWorkflow _ _ _ _, .error e => some e
  | .selectWorkflow _, .error e => some e
  | .updateWorkflow _ _ _ _, .error e => some e
  | .deleteFencingTokens _ _, .error e => some e
  | .deleteCheckpoints _ _, .error e => some e
  | .deleteWorkflows _ _, .error e => some e
  | .cacheGet _, .error e => some e
  | .cachePut _ _ _, .error e => some e
  | .cacheDelete _, .error e => some e
  | _, _ => none

/-- The call writes something other than the end of a lease. -/
def Writes (call : StorageCall) (_ : call.Reply) : Prop :=
  call.table ≠ none ∧ ∀ key, call ≠ .cacheDelete key

/-- The call failed, and its handler does not drop the error. -/
def Fails (dropped : StorageCall → Bool) (call : StorageCall) (reply : call.Reply) : Prop :=
  call.error? reply ≠ none ∧ dropped call = false

/-- Not one of the handlers' own errors. -/
def NotRefused {α : Type} (result : Except HandlerError α) : Prop :=
  ∀ kind message, result ≠ .error (.io kind message)

/-- An error. -/
def Rejected {α : Type} (result : Except HandlerError α) : Prop := ∃ e, result = .error e

theorem notRefused_ok {α : Type} (a : α) : NotRefused (.ok a) := fun _ _ h => by cases h

theorem notRefused_mapError {α : Type} (r : Except HiqliteError α) :
    NotRefused (r.mapError HandlerError.hiqlite) := by
  cases r <;> exact fun _ _ h => by cases h

/-! ## Rules for handlers -/

namespace Handler

variable {α β : Type} {F : (call : StorageCall) → call.Reply → Prop}

/-- After a reply that meets `F`, the handler's result meets `D`. -/
def Marks (F : (call : StorageCall) → call.Reply → Prop) (D : Except HandlerError α → Prop)
    (m : Handler α) : Prop := m.program.Marks F D

/-- No reply the handler gets meets `F`. -/
abbrev Quiet (F : (call : StorageCall) → call.Reply → Prop) (m : Handler α) : Prop :=
  m.Marks F fun _ => False

section Rules

variable {m : Handler α} {f : α → Handler β} {D : Except HandlerError α → Prop}
  {E : Except HandlerError β → Prop}

theorem marks_pure (a : α) : (pure a : Handler α).Marks F D := trivial

theorem marks_fail (e : HandlerError) : (fail e : Handler α).Marks F D := trivial

theorem marks_ofResult (r : Except HandlerError α) : (ofResult r).Marks F D := trivial

theorem marks_lock {D : Except HandlerError Unit → Prop}
    (key : String) : (lock key).Marks F D :=
  fun _ => trivial

theorem marks_dropGuard {D : Except HandlerError Unit → Prop} (key : String) :
    (dropGuard key).Marks F D := trivial

theorem marks_bind (hm : m.Marks F D) (hthrough : ∀ r, D r → Finally E (andThen f r))
    (hf : ∀ a, (f a).Marks F E) : (m >>= f).Marks F E := by
  refine Program.marks_bind hm hthrough fun r => ?_
  cases r with
  | ok a => exact hf a
  | error e => trivial

/-- What comes after a handler that meets no such reply decides. -/
theorem marks_bind_quiet (hm : m.Quiet F) (hf : ∀ a, (f a).Marks F E) : (m >>= f).Marks F E :=
  marks_bind hm (fun _ h => h.elim) hf

/-- An error is passed on. -/
theorem marks_bind_rejected (hm : m.Marks F Rejected) (hf : ∀ a, (f a).Marks F Rejected) :
    (m >>= f).Marks F Rejected := by
  refine marks_bind hm (fun r hr => ?_) hf
  obtain ⟨e, rfl⟩ := hr
  exact ⟨e, rfl⟩

/-- A result that only gets wrapped keeps clear of the handlers' own errors. -/
theorem marks_wrap_notRefused {g : α → β} (hm : m.Marks F NotRefused) :
    (m >>= fun a => pure (g a)).Marks F NotRefused := by
  refine marks_bind hm (fun r hr => ?_) fun a => marks_pure _
  cases r with
  | ok a => exact notRefused_ok _
  | error e => exact fun kind message h => hr kind message (by cases h; rfl)

theorem marks_join {b : Handler β} {G : Except HandlerError β → Prop} (hm : m.Marks F D)
    (hb : b.Marks F G) : (join m b).Marks F fun r => ∀ ab, r = .ok ab → D ab.1 ∨ G ab.2 := by
  refine Program.marks_bind (Program.marks_join hm hb) (fun ab hab => ?_) fun _ => trivial
  rintro _ ⟨⟩
  exact hab

theorem quiet_join {b : Handler β} (hm : m.Quiet F) (hb : b.Quiet F) : (join m b).Quiet F := by
  refine Program.marks_bind (Program.marks_join hm hb) (fun ab hab => ?_) fun _ => trivial
  exact hab.elim id id

end Rules

end Handler

theorem marks_returnErrorIfTrue {F : (call : StorageCall) → call.Reply → Prop}
    {D : Except HandlerError Unit → Prop} (condition : Bool) (status : HandlerError) :
    (returnErrorIfTrue condition status).Marks F D := by
  cases condition
  · exact Handler.marks_pure ()
  · exact Handler.marks_fail status

/-! ## Handlers that only read -/

/-- The calls whose errors a handler drops: `create_workflow` looks at one side of
its `join!` only. -/
def Request.drops : Request → StorageCall → Bool
  | .workflowStart data, .insertWorkflow id _ _ _ => id == data.workflowId
  | _, _ => false

theorem Request.exists_of_drops {request : Request} {call : StorageCall}
    (h : request.drops call = true) : ∃ data status createdAt name,
      request = .workflowStart data ∧
      call = .insertWorkflow data.workflowId status createdAt name := by
  unfold Request.drops at h
  split at h
  · next data id status createdAt name =>
      have hid : id = data.workflowId := by simpa using h
      exact ⟨data, status, createdAt, name, rfl, by rw [hid]⟩
  · contradiction

section Settles

variable {dropped : StorageCall → Bool}

/-- The handler writes nothing, but may end a lease, and its result is an error if
a call of its own fails. -/
structure Handler.Reads {α : Type} (dropped : StorageCall → Bool) (m : Handler α) : Prop where
  quiet : m.Quiet Writes
  rejected : m.Marks (Fails dropped) Rejected

/-- Once the handler has written, its result is none of the handlers' own errors,
and it is an error if a call of its own fails. -/
structure Handler.Settles {α : Type} (dropped : StorageCall → Bool) (m : Handler α) : Prop where
  notRefused : m.Marks Writes NotRefused
  rejected : m.Marks (Fails dropped) Rejected

namespace Handler

variable {α β γ : Type}

theorem reads_pure (a : α) : (pure a : Handler α).Reads dropped :=
  ⟨marks_pure a, marks_pure a⟩

theorem reads_fail (e : HandlerError) : (fail e : Handler α).Reads dropped :=
  ⟨marks_fail e, marks_fail e⟩

theorem reads_lock (key : String) : (lock key).Reads dropped := ⟨marks_lock key, marks_lock key⟩

theorem reads_dropGuard (key : String) : (dropGuard key).Reads dropped :=
  ⟨marks_dropGuard key, marks_dropGuard key⟩

theorem reads_bind {m : Handler α} {f : α → Handler β} (hm : m.Reads dropped)
    (hf : ∀ a, (f a).Reads dropped) : (m >>= f).Reads dropped where
  quiet := marks_bind_quiet hm.quiet fun a => (hf a).quiet
  rejected := marks_bind_rejected hm.rejected fun a => (hf a).rejected

/-- Whatever follows a handler that has written nothing. -/
theorem Reads.bind {m : Handler α} {f : α → Handler β} (hm : m.Reads dropped)
    (hf : ∀ a, (f a).Settles dropped) : (m >>= f).Settles dropped where
  notRefused := marks_bind_quiet hm.quiet fun a => (hf a).notRefused
  rejected := marks_bind_rejected hm.rejected fun a => (hf a).rejected

theorem Reads.settles {m : Handler α} (hm : m.Reads dropped) : m.Settles dropped where
  notRefused := Program.Marks.imp (fun _ h => h.elim) hm.quiet
  rejected := hm.rejected

theorem Settles.wrap {m : Handler α} (hm : m.Settles dropped) (g : α → β) :
    (m >>= fun a => pure (g a)).Settles dropped where
  notRefused := marks_wrap_notRefused hm.notRefused
  rejected := marks_bind_rejected hm.rejected fun a => marks_pure (g a)

/-- Of two handlers side by side, whose results are both looked at, either passes
its error on. -/
theorem rejected_join {m : Handler α} {b : Handler β} (hm : m.Marks (Fails dropped) Rejected)
    (hb : b.Marks (Fails dropped) Rejected) {f : α → β → Handler γ}
    (hf : ∀ a b, (f a b).Marks (Fails dropped) Rejected) :
    (join m b >>= fun results => ofResult results.1 >>= fun a => ofResult results.2 >>= fun b =>
      f a b).Marks (Fails dropped) Rejected := by
  refine marks_bind (marks_join hm hb) (fun r hr => ?_) fun results =>
    marks_bind_rejected (marks_ofResult _) fun a => marks_bind_rejected (marks_ofResult _)
      fun b => hf a b
  cases r with
  | error e => exact ⟨e, rfl⟩
  | ok results =>
      obtain ⟨left, right⟩ := results
      rcases hr _ rfl with ⟨e, he⟩ | ⟨e, he⟩
      · cases he
        exact ⟨e, rfl⟩
      · cases he
        cases left <;> exact ⟨_, rfl⟩

/-- Two readers side by side, whose results are both looked at. -/
theorem reads_join {m : Handler α} {b : Handler β} (hm : m.Reads dropped) (hb : b.Reads dropped)
    {f : α → β → Handler γ} (hf : ∀ a b, (f a b).Settles dropped) :
    (join m b >>= fun results => ofResult results.1 >>= fun a => ofResult results.2 >>= fun b =>
      f a b).Settles dropped where
  notRefused := marks_bind_quiet (quiet_join hm.quiet hb.quiet) fun _ =>
    marks_bind_quiet (marks_ofResult _) fun a => marks_bind_quiet (marks_ofResult _) fun b =>
      (hf a b).notRefused
  rejected := rejected_join hm.rejected hb.rejected fun a b => (hf a b).rejected

/-- A storage call gives none of the handlers' own errors. -/
theorem finally_await
    (p : Program StorageCall StorageCall.Reply String (Except HiqliteError α)) :
    (await p).program.Finally NotRefused :=
  Program.finally_bind (D := fun _ => True) (Program.finally_of_forall (fun _ => trivial) p)
    fun r _ => notRefused_mapError r

/-- Two handlers side by side that give none of the handlers' own errors. -/
theorem finally_join {m : Handler α} {b : Handler β} (hm : m.program.Finally NotRefused)
    (hb : b.program.Finally NotRefused)
    {f : Except HandlerError α × Except HandlerError β → Handler γ}
    (hf : ∀ left right, NotRefused left → NotRefused right →
      (f (left, right)).program.Finally NotRefused) :
    (join m b >>= f).program.Finally NotRefused := by
  have hboth : (Program.join m.program b.program).Finally
      fun results => NotRefused results.1 ∧ NotRefused results.2 :=
    Program.finally_join (fun left right h h' => ⟨h, h'⟩) hm hb
  have hjoin : (join m b).program.Finally fun r => ∃ left right, r = .ok (left, right) ∧
      NotRefused left ∧ NotRefused right :=
    Program.finally_bind hboth fun results h => ⟨results.1, results.2, rfl, h.1, h.2⟩
  refine Program.finally_bind hjoin fun r hr => ?_
  obtain ⟨left, right, rfl, hleft, hright⟩ := hr
  exact hf left right hleft hright

end Handler

theorem reads_returnErrorIfTrue (condition : Bool) (status : HandlerError) :
    (returnErrorIfTrue condition status).Reads dropped :=
  ⟨marks_returnErrorIfTrue condition status, marks_returnErrorIfTrue condition status⟩

/-! ## The repositories -/

section Repositories

variable (workflowId : String) (position : Int)

/-- A call that writes nothing, and whose error becomes the handler's. -/
theorem reads_getCheckpoint : (getCheckpoint workflowId position).Reads dropped where
  quiet := fun _ => ⟨fun h => absurd rfl h.1, trivial⟩
  rejected := by
    rintro (e | row)
    · exact ⟨fun _ => ⟨_, rfl⟩, trivial⟩
    · exact ⟨fun h => absurd rfl h.1, trivial⟩

theorem reads_getLeasedCheckpoint :
    (getLeasedCheckpoint workflowId position).Reads dropped where
  quiet := fun _ => ⟨fun h => absurd rfl h.1, trivial⟩
  rejected := by
    rintro (e | found)
    · exact ⟨fun _ => ⟨_, rfl⟩, trivial⟩
    · exact ⟨fun h => absurd rfl h.1, trivial⟩

theorem reads_getWorkflowFencingToken : (getWorkflowFencingToken workflowId).Reads dropped where
  quiet := fun _ => ⟨fun h => absurd rfl h.1, trivial⟩
  rejected := by
    rintro (e | token)
    · exact ⟨fun _ => ⟨_, rfl⟩, trivial⟩
    · exact ⟨fun h => absurd rfl h.1, trivial⟩

theorem reads_getWorkflow : (getWorkflow workflowId).Reads dropped where
  quiet := fun _ => ⟨fun h => absurd rfl h.1, trivial⟩
  rejected := by
    rintro (e | found)
    · exact ⟨fun _ => ⟨_, rfl⟩, trivial⟩
    · exact ⟨fun h => absurd rfl h.1, trivial⟩

theorem reads_utcNow : utcNow.Reads dropped where
  quiet := fun _ => ⟨fun h => absurd rfl h.1, trivial⟩
  rejected := fun _ => ⟨fun h => absurd rfl h.1, trivial⟩

theorem reads_newV4 : newV4.Reads dropped where
  quiet := fun _ => ⟨fun h => absurd rfl h.1, trivial⟩
  rejected := fun _ => ⟨fun h => absurd rfl h.1, trivial⟩

theorem reads_isLeaderDb : isLeaderDb.Reads dropped where
  quiet := fun _ => ⟨fun h => absurd rfl h.1, trivial⟩
  rejected := fun _ => ⟨fun h => absurd rfl h.1, trivial⟩

theorem reads_diffLeaseExpiryFromNow (leased : LeasedCheckpointValue) :
    (diffLeaseExpiryFromNow leased).Reads dropped :=
  Handler.reads_bind reads_utcNow fun _ => Handler.reads_pure _

theorem reads_cacheDelete (key : String) :
    (Handler.await (StorageCall.cacheDelete key).send).Reads dropped where
  quiet := fun _ => ⟨fun h => absurd rfl (h.2 key), trivial⟩
  rejected := by
    rintro (e | u)
    · exact ⟨fun _ => ⟨_, rfl⟩, trivial⟩
    · exact ⟨fun h => absurd rfl h.1, trivial⟩

theorem reads_removeLeasedCheckpoint :
    (removeLeasedCheckpoint workflowId position).Reads dropped :=
  Handler.reads_bind (reads_getLeasedCheckpoint workflowId position) fun _ =>
    Handler.reads_bind (reads_cacheDelete _) fun _ => Handler.reads_pure _

/-- The write is the last call. -/
theorem settles_createCheckpoint (value : Option Bytes) (idempotencyKey : String) :
    (createCheckpoint workflowId value position idempotencyKey).Settles dropped :=
  reads_utcNow.bind fun _ =>
    { notRefused := fun r => ⟨fun _ => notRefused_mapError r, trivial⟩
      rejected := by
        rintro (e | u)
        · exact ⟨fun _ => ⟨_, rfl⟩, trivial⟩
        · exact ⟨fun h => absurd rfl h.1, trivial⟩ }

theorem settles_leaseCheckpoint (leaseTimeout : Int) :
    (leaseCheckpoint workflowId position leaseTimeout).Settles dropped := by
  refine reads_utcNow.bind fun now => Handler.Settles.wrap ?_ _
  refine ⟨fun r => ⟨fun _ => notRefused_mapError r, trivial⟩, ?_⟩
  rintro (e | u)
  · exact ⟨fun _ => ⟨_, rfl⟩, trivial⟩
  · exact ⟨fun h => absurd rfl h.1, trivial⟩

end Repositories

/-! ## The handlers -/

section Handlers

open Handler

theorem settles_storeResult (data : CheckpointInput) (abort : Bool) :
    (storeResult data abort).Settles dropped := (settles_createCheckpoint _ _ _ _).wrap _

theorem settles_handleCheckpoint (data : CheckpointInput) :
    (handleCheckpoint data).Settles dropped := by
  rw [handleCheckpoint]
  refine reads_join (reads_getWorkflowFencingToken _) (reads_removeLeasedCheckpoint _ _)
    fun stored found => (reads_returnErrorIfTrue _ _).bind fun _ => ?_
  cases found with
  | none => exact settles_storeResult data _
  | some leased =>
      refine (reads_diffLeaseExpiryFromNow leased).bind fun remaining => ?_
      split
      · exact (reads_returnErrorIfTrue _ _).bind fun _ => settles_storeResult data _
      · exact settles_storeResult data _

theorem settles_grantLease (data : LeaseCheckpointInput) (token : Option Int) :
    (grantLease data token).Settles dropped := by
  rw [grantLease]
  refine (reads_returnErrorIfTrue _ _).bind fun _ =>
    (reads_returnErrorIfTrue _ _).bind fun _ => ?_
  split
  · exact (settles_leaseCheckpoint _ _ _).wrap _
  · exact (reads_fail _).settles

theorem settles_handleLeaseCheckpoint (data : LeaseCheckpointInput) :
    (handleLeaseCheckpoint data).Settles dropped := by
  rw [handleLeaseCheckpoint_eq]
  refine (reads_getCheckpoint _ _).bind fun row => ?_
  cases row with
  | some checkpoint =>
      exact (reads_returnErrorIfTrue _ _).bind fun _ =>
        (reads_returnErrorIfTrue _ _).bind fun _ => (reads_pure _).settles
  | none =>
      refine (reads_lock _).bind fun _ => (reads_dropGuard _).bind fun _ =>
        reads_join (reads_getLeasedCheckpoint _ _) (reads_getWorkflowFencingToken _)
          fun found stored => ?_
      cases found with
      | none => exact settles_grantLease data stored
      | some leased =>
          refine (reads_diffLeaseExpiryFromNow leased).bind fun remaining => ?_
          split
          · exact (reads_pure _).settles
          · exact settles_grantLease data stored

theorem settles_createDurableIdempotencyKey (data : CreateDurableIdempotencyKeyInput) :
    (createDurableIdempotencyKey data).Settles dropped := by
  rw [createDurableIdempotencyKey]
  refine (reads_lock _).bind fun _ => (reads_dropGuard _).bind fun _ =>
    (reads_getCheckpoint _ _).bind fun row => ?_
  cases row with
  | some checkpoint => exact (reads_pure _).settles
  | none =>
      exact (reads_getWorkflowFencingToken _).bind fun token =>
        (reads_returnErrorIfTrue _ _).bind
        fun _ => (reads_returnErrorIfTrue _ _).bind fun _ => reads_newV4.bind fun key =>
        (settles_createCheckpoint _ _ _ _).wrap _

theorem settles_finishWorkflow (data : FinishWorkflowInput) :
    (finishWorkflow data).Settles dropped := by
  rw [finishWorkflow]
  refine (reads_getWorkflowFencingToken _).bind fun token => (reads_returnErrorIfTrue _ _).bind
    fun _ => (reads_returnErrorIfTrue _ _).bind fun _ => reads_utcNow.bind fun now =>
    reads_utcNow.bind fun completedAt => ?_
  refine ⟨fun r => ⟨fun _ => notRefused_mapError r, trivial⟩, ?_⟩
  rintro (e | u)
  · exact ⟨fun _ => ⟨_, rfl⟩, trivial⟩
  · exact ⟨fun h => absurd rfl h.1, trivial⟩

/-- A start drops the error of its row, and nothing else. -/
theorem settles_createWorkflow (data : CreateWorkflowInput) :
    (createWorkflow data).Settles (Request.workflowStart data).drops where
  notRefused := by
    refine Program.Finally.marks ?_
    rw [createWorkflow]
    have hrow : (createOrGetWorkflow data.workflowId .Running data.name).program.Finally
        NotRefused := fun _ => Handler.finally_await _
    refine Handler.finally_join hrow (Handler.finally_await _) fun _ right _ hright => ?_
    cases right with
    | ok token => exact notRefused_ok _
    | error e => exact fun kind message h => hright kind message (by cases h; rfl)
  rejected := by
    have hrow : (createOrGetWorkflow data.workflowId .Running data.name).Quiet
        (Fails (Request.workflowStart data).drops) := by
      refine fun _ => ⟨fun h => absurd rfl h.1, fun _ => ⟨fun h => ?_, trivial⟩⟩
      have hkept : (data.workflowId == data.workflowId) = false := h.2
      simp at hkept
    have htoken : (incrementWorkflowFencingToken data.workflowId 1).Marks
        (Fails (Request.workflowStart data).drops) Rejected := by
      rintro (e | token)
      · exact ⟨fun _ => ⟨_, rfl⟩, trivial⟩
      · exact ⟨fun h => absurd rfl h.1, trivial⟩
    rw [createWorkflow]
    refine marks_bind (marks_join hrow htoken) (fun r hr => ?_) fun _ =>
      marks_bind_rejected (marks_ofResult _) fun _ => marks_pure _
    cases r with
    | error e => exact ⟨e, rfl⟩
    | ok results =>
        obtain ⟨left, right⟩ := results
        rcases hr _ rfl with hnone | ⟨e, he⟩
        · exact hnone.elim
        · cases he
          exact ⟨e, rfl⟩

/-- A cleanup refuses nothing. -/
theorem settles_handleWorkflowCleanup : handleWorkflowCleanup.Settles dropped := by
  have hresult : ∀ r : Except HiqliteError Unit, Rejected (r.mapError HandlerError.hiqlite) ∨
      r = .ok () := by
    rintro (e | u)
    · exact .inl ⟨_, rfl⟩
    · exact .inr rfl
  rw [handleWorkflowCleanup]
  refine reads_isLeaderDb.bind fun leader => ?_
  cases leader with
  | false => exact (reads_pure ()).settles
  | true =>
      refine reads_utcNow.bind fun now => ⟨Program.Finally.marks ?_, ?_⟩
      · refine Handler.finally_join (Handler.finally_await _) (Handler.finally_await _)
          fun left right hleft hright => ?_
        cases left with
        | error e => exact fun kind message h => hleft kind message (by cases h; rfl)
        | ok u =>
            cases right with
            | error e => exact fun kind message h => hright kind message (by cases h; rfl)
            | ok u' => exact Handler.finally_await _
      · refine rejected_join ?_ ?_ fun _ _ => ?_
        · rintro (e | u)
          · exact ⟨fun _ => ⟨_, rfl⟩, trivial⟩
          · exact ⟨fun h => absurd rfl h.1, trivial⟩
        · rintro (e | u)
          · exact ⟨fun _ => ⟨_, rfl⟩, trivial⟩
          · exact ⟨fun h => absurd rfl h.1, trivial⟩
        · rintro (e | u)
          · exact ⟨fun _ => ⟨_, rfl⟩, trivial⟩
          · exact ⟨fun h => absurd rfl h.1, trivial⟩

/-- **Every handler settles**: its answer shows whether it has written. -/
theorem Request.settles (request : Request) : request.handler.Settles request.drops := by
  cases request with
  | workflowStart data => exact (settles_createWorkflow data).wrap _
  | checkpoint data => exact (settles_handleCheckpoint data).wrap _
  | leaseCheckpoint data => exact (settles_handleLeaseCheckpoint data).wrap _
  | completeWorkflow data => exact (settles_finishWorkflow data).wrap _
  | workflowStatus workflowId => exact (reads_getWorkflow workflowId).settles.wrap _
  | releaseCheckpoint data =>
      exact (reads_bind (reads_removeLeasedCheckpoint _ _) fun _ => reads_pure
        ()).settles.wrap _
  | generateIdempotencyKey data => exact (settles_createDurableIdempotencyKey data).wrap _
  | cleanUp => exact settles_handleWorkflowCleanup.wrap _

end Handlers

end Settles

/-! ## Writing once -/

/-- Whether a call that writes `written` writes `t`. -/
def Table.cost (t : Table) (written : Option Table) : Nat := if written = some t then 1 else 0

/-- The call writes to the table. -/
def StorageCall.writesTo (t : Table) (call : StorageCall) : Bool := call.table == some t

namespace Handler

variable {α β γ : Type} {t : Table} {k n : Nat}

/-- At most `n` calls of the handler write to `t`. -/
def Spends (t : Table) (n : Nat) (m : Handler α) : Prop :=
  m.program.Spends (StorageCall.writesTo t) n

theorem Spends.mono {m : Handler α} (h : m.Spends t k) (hle : k ≤ n) : m.Spends t n :=
  Program.Spends.mono h hle

theorem spends_pure (a : α) : (pure a : Handler α).Spends t 0 := trivial

theorem spends_fail (e : HandlerError) : (fail e : Handler α).Spends t 0 := trivial

theorem spends_ofResult (r : Except HandlerError α) : (ofResult r).Spends t 0 := trivial

theorem spends_lock (key : String) : (lock key).Spends t 0 := fun _ => trivial

theorem spends_dropGuard (key : String) : (dropGuard key).Spends t 0 := trivial

theorem spends_bind {m : Handler α} {f : α → Handler β} (hm : m.Spends t k)
    (hf : ∀ a, (f a).Spends t n) : (m >>= f).Spends t (k + n) := by
  refine Program.spends_bind hm fun r => ?_
  cases r with
  | ok a => exact hf a
  | error e => trivial

/-- What writes nothing costs nothing. -/
theorem Spends.bind {m : Handler α} {f : α → Handler β} (hm : m.Spends t 0)
    (hf : ∀ a, (f a).Spends t n) : (m >>= f).Spends t n :=
  (spends_bind hm hf).mono (by omega)

theorem Spends.wrap {m : Handler α} (hm : m.Spends t n) (g : α → β) :
    (m >>= fun a => pure (g a)).Spends t n := spends_bind hm fun a => spends_pure (g a)

theorem spends_join {m : Handler α} {b : Handler β} (hm : m.Spends t k) (hb : b.Spends t n) :
    (join m b).Spends t (k + n) :=
  Program.Spends.mapResult (Program.spends_join hm hb) Except.ok

end Handler

section Spends

open Handler

variable (t : Table)

/-- A call costs what it writes. -/
theorem spends_send (call : StorageCall) :
    call.send.Spends (StorageCall.writesTo t) (t.cost call.table) := by
  refine ⟨fun h => ?_, fun _ => trivial⟩
  have htable : call.table = some t := by simpa [StorageCall.writesTo] using h
  simp [Table.cost, htable]

theorem spends_await {α : Type} {n : Nat}
    {p : Program StorageCall StorageCall.Reply String (Except HiqliteError α)}
    (hp : p.Spends (StorageCall.writesTo t) n) : (await p).Spends t n :=
  hp.mapResult _

theorem spends_read {α : Type} {n : Nat} {p : Program StorageCall StorageCall.Reply String α}
    (hp : p.Spends (StorageCall.writesTo t) n) : (read p).Spends t n :=
  hp.mapResult _

theorem spends_returnErrorIfTrue (condition : Bool) (status : HandlerError) :
    (returnErrorIfTrue condition status).Spends t 0 := by
  cases condition
  · exact spends_pure ()
  · exact spends_fail status

theorem spends_utcNow : utcNow.Spends t 0 := spends_read t (spends_send t _)

theorem spends_diffLeaseExpiryFromNow (leased : LeasedCheckpointValue) :
    (diffLeaseExpiryFromNow leased).Spends t 0 := (spends_utcNow t).wrap _

theorem spends_getWorkflowFencingToken (workflowId : String) :
    (getWorkflowFencingToken workflowId).Spends t 0 := spends_await t (spends_send t _)

theorem spends_getCheckpoint (workflowId : String) (position : Int) :
    (getCheckpoint workflowId position).Spends t 0 := spends_await t (spends_send t _)

theorem spends_getLeasedCheckpoint (workflowId : String) (position : Int) :
    (getLeasedCheckpoint workflowId position).Spends t 0 := spends_await t (spends_send t _)

theorem spends_removeLeasedCheckpoint (workflowId : String) (position : Int) :
    (removeLeasedCheckpoint workflowId position).Spends t (t.cost (some .leases)) :=
  (spends_getLeasedCheckpoint t workflowId position).bind fun _ =>
    Handler.spends_bind (n := 0) (spends_await t (spends_send t _)) fun _ => spends_pure _

theorem spends_createCheckpoint (workflowId : String) (value : Option Bytes) (position : Int)
    (idempotencyKey : String) :
      (createCheckpoint workflowId value position idempotencyKey).Spends t
      (t.cost (some .checkpoints)) :=
  (spends_utcNow t).bind fun _ => spends_await t (spends_send t _)

theorem spends_storeResult (data : CheckpointInput) (abort : Bool) :
    (storeResult data abort).Spends t (t.cost (some .checkpoints)) :=
  (spends_createCheckpoint t _ _ _ _).wrap _

theorem spends_handleCheckpoint (data : CheckpointInput) : (handleCheckpoint data).Spends t
    (t.cost (some .leases) + t.cost (some .checkpoints)) := by
  have hends := (Handler.spends_join (spends_getWorkflowFencingToken t data.workflowId)
    (spends_removeLeasedCheckpoint t data.workflowId data.position)).mono (Nat.zero_add _).le
  rw [handleCheckpoint]
  refine Handler.spends_bind hends fun results => (spends_ofResult _).bind fun stored =>
    (spends_ofResult results.2).bind fun found =>
      (spends_returnErrorIfTrue t _ _).bind fun _ => ?_
  cases found with
  | none => exact spends_storeResult t data _
  | some leased =>
      refine (spends_diffLeaseExpiryFromNow t leased).bind fun remaining => ?_
      split
      · exact (spends_returnErrorIfTrue t _ _).bind fun _ => spends_storeResult t data _
      · exact spends_storeResult t data _

theorem spends_grantLease (data : LeaseCheckpointInput) (token : Option Int) :
    (grantLease data token).Spends t (t.cost (some .leases)) := by
  rw [grantLease]
  refine (spends_returnErrorIfTrue t _ _).bind fun _ => (spends_returnErrorIfTrue t _ _).bind
    fun _ => ?_
  split
  · exact Spends.wrap ((spends_utcNow t).bind fun _ =>
      Spends.wrap (spends_await t (spends_send t _)) _) _
  · exact (spends_fail _).mono (Nat.zero_le _)

theorem spends_handleLeaseCheckpoint (data : LeaseCheckpointInput) :
    (handleLeaseCheckpoint data).Spends t (t.cost (some .leases)) := by
  rw [handleLeaseCheckpoint_eq]
  refine (spends_getCheckpoint t _ _).bind fun row => ?_
  cases row with
  | some checkpoint =>
      exact (spends_returnErrorIfTrue t _ _).bind fun _ => (spends_returnErrorIfTrue t _ _).bind
        fun _ => (spends_pure _).mono (Nat.zero_le _)
  | none =>
      have hreads := Handler.spends_join
        (spends_getLeasedCheckpoint t data.workflowId data.position)
        (spends_getWorkflowFencingToken t data.workflowId)
      refine (spends_lock _).bind fun _ => (spends_dropGuard _).bind fun _ => hreads.bind
        fun results => (spends_ofResult results.1).bind fun found => (spends_ofResult _).bind
        fun stored => ?_
      cases found with
      | none => exact spends_grantLease t data stored
      | some leased =>
          refine (spends_diffLeaseExpiryFromNow t leased).bind fun remaining => ?_
          split
          · exact (spends_pure _).mono (Nat.zero_le _)
          · exact spends_grantLease t data stored

theorem spends_createDurableIdempotencyKey (data : CreateDurableIdempotencyKeyInput) :
    (createDurableIdempotencyKey data).Spends t (t.cost (some .checkpoints)) := by
  rw [createDurableIdempotencyKey]
  refine (spends_lock _).bind fun _ => (spends_dropGuard _).bind fun _ =>
    (spends_getCheckpoint t _ _).bind fun row => ?_
  cases row with
  | some checkpoint => exact (spends_pure _).mono (Nat.zero_le _)
  | none =>
      exact (spends_getWorkflowFencingToken t _).bind fun token =>
        (spends_returnErrorIfTrue t _ _).bind fun _ => (spends_returnErrorIfTrue t _ _).bind
        fun _ => (spends_read t (spends_send t _)).bind fun key =>
        (spends_createCheckpoint t _ _ _ _).wrap _

theorem spends_finishWorkflow (data : FinishWorkflowInput) :
    (finishWorkflow data).Spends t (t.cost (some .workflows)) := by
  rw [finishWorkflow]
  exact (spends_getWorkflowFencingToken t _).bind fun token =>
    (spends_returnErrorIfTrue t _ _).bind
    fun _ => (spends_returnErrorIfTrue t _ _).bind fun _ => (spends_utcNow t).bind fun now =>
    (spends_utcNow t).bind fun completedAt => spends_await t (spends_send t _)

theorem spends_createWorkflow (data : CreateWorkflowInput) : (createWorkflow data).Spends t
    (t.cost (some .workflows) + t.cost (some .fencingTokens)) := by
  have hrow : (createOrGetWorkflow data.workflowId .Running data.name).Spends t
      (t.cost (some .workflows)) := (spends_utcNow t).bind fun _ =>
        spends_await t (spends_send t _)
  have htoken : (incrementWorkflowFencingToken data.workflowId 1).Spends t
      (t.cost (some .fencingTokens)) := spends_await t (spends_send t _)
  rw [createWorkflow]
  exact Handler.spends_bind (n := 0) (Handler.spends_join hrow htoken) fun _ =>
    (spends_ofResult _).wrap _

theorem spends_handleWorkflowCleanup : handleWorkflowCleanup.Spends t
    (t.cost (some .fencingTokens) + t.cost (some .checkpoints) + t.cost (some .workflows)) := by
  rw [handleWorkflowCleanup]
  refine Spends.bind (spends_read t (spends_send t _)) fun leader => ?_
  cases leader with
  | false => exact (spends_pure ()).mono (Nat.zero_le _)
  | true =>
      have htokens : ∀ now status, (deleteExpiredWorkflowFencingTokens now status).Spends t
          (t.cost (some .fencingTokens)) := fun _ _ => spends_await t (spends_send t _)
      have hcheckpoints : ∀ now status, (deleteExpiredCheckpoints now status).Spends t
          (t.cost (some .checkpoints)) := fun _ _ => spends_await t (spends_send t _)
      exact (spends_utcNow t).bind fun now => Handler.spends_bind
        (Handler.spends_join (htokens _ _) (hcheckpoints _ _)) fun _ =>
        (spends_ofResult _).bind fun _ => (spends_ofResult _).bind fun _ =>
        spends_await t (spends_send t _)

/-- **No handler writes a table twice.** -/
theorem Request.spends (request : Request) : request.handler.Spends t 1 := by
  cases request with
  | workflowStart data =>
      exact ((spends_createWorkflow t data).wrap _).mono (by cases t <;> decide)
  | checkpoint data =>
      exact ((spends_handleCheckpoint t data).wrap _).mono (by cases t <;> decide)
  | leaseCheckpoint data =>
      exact ((spends_handleLeaseCheckpoint t data).wrap _).mono (by cases t <;> decide)
  | completeWorkflow data =>
      exact ((spends_finishWorkflow t data).wrap _).mono (by cases t <;> decide)
  | workflowStatus workflowId =>
      exact (Spends.wrap (spends_await t (spends_send t _)) _).mono (Nat.zero_le 1)
  | releaseCheckpoint data =>
      exact (Spends.wrap ((spends_removeLeasedCheckpoint t _ _).wrap _) _).mono
        (by cases t <;> decide)
  | generateIdempotencyKey data =>
      exact ((spends_createDurableIdempotencyKey t data).wrap _).mono (by cases t <;> decide)
  | cleanUp => exact ((spends_handleWorkflowCleanup t).wrap _).mono (by cases t <;> decide)

end Spends

/-! ## What the answer accounts for -/

/-- The tables are the same. -/
structure World.SameTables (w w' : World) : Prop where
  workflows : w'.workflows = w.workflows
  fencingTokens : w'.fencingTokens = w.fencingTokens
  checkpoints : w'.checkpoints = w.checkpoints

/-- A call that writes no table but the leases leaves the tables alone. -/
theorem StorageCall.exec_sameTables (env : Env) (call : StorageCall) (w : World)
    (h : call.table = none ∨ call.table = some .leases) : w.SameTables (call.exec env w).2 := by
  refine exec_preserves env call w (fun w' => w.SameTables w') ⟨rfl, rfl, rfl⟩ fun _ => ?_
  cases call <;> simp only [table, reduceCtorEq, Option.some.injEq, or_self] at h <;>
    exact ⟨rfl, rfl, rfl⟩

/-- The call took effect, and was told so. -/
def StorageEvent.Acknowledged (e : StorageEvent) : Prop :=
  ∃ env : Env, env.fault = .none ∧ e.op.exec env e.before = (e.reply, e.after)

/-- A call that was told of no error went as if nothing could fail. -/
theorem StorageCall.exec_of_error {env : Env} {call : StorageCall} {w : World}
    (h : call.error? (call.exec env w).1 = none) :
    call.exec { env with fault := .none } w = call.exec env w := by
  obtain ⟨fault, minted, leader⟩ := env
  cases fault with
  | none => rfl
  | _ => cases call <;> first | rfl | cases h

section Answers

variable {P : Handlers} {pid : Nat}
  {p : Process StorageCall StorageCall.Reply String (Except HandlerError Response) Request}

/-- A release refuses nothing. -/
theorem finally_releaseCheckpoint (data : ReleaseCheckpointInput) :
    (Request.releaseCheckpoint data).handler.program.Finally NotRefused := by
  rintro (e | found)
  · exact notRefused_mapError (α := Response) (.error e)
  · rintro (e | u)
    · exact notRefused_mapError (α := Response) (.error e)
    · exact notRefused_ok _

/-- A lease is ended by a checkpoint or a release, at its own position. -/
theorem ends_own_lease (hr : P.Reached evictable) (hp : P.procs pid = some p) {e : StorageEvent}
    (he : e ∈ P.trace) (hpid : e.pid = pid) {key : String} (hop : e.op = .cacheDelete key)
    (hrelease : ∀ data, p.tag ≠ .releaseCheckpoint data) : ∃ data, p.tag = .checkpoint data ∧
      key = generateLeasedCheckpointKey data.workflowId data.position := by
  obtain ⟨p', hp', htag⟩ := hr.sound.tagged e he
  rw [hpid, hp, Option.some.injEq] at hp'
  obtain ⟨later, earlier, hsplit⟩ := List.append_of_mem he
  have hcalls := hr.calls hsplit
  rw [hop, ← htag, ← hp'] at hcalls
  obtain ⟨hends, workflowId, position, hposition, hkey⟩ := hcalls
  cases hrequest : p.tag with
  | checkpoint data =>
      rw [hrequest] at hposition
      cases hposition
      exact ⟨data, rfl, hkey⟩
  | releaseCheckpoint data => exact absurd hrequest (hrelease data)
  | _ =>
      rw [hrequest] at hends
      contradiction

/-- Of an answered request: refused, it has written nothing but perhaps the end of
its own checkpoint's lease; accepted, it had all its calls acknowledged. -/
structure Handlers.Accounts (P : Handlers) (pid : Nat) (request : Request)
    (result : Except HandlerError Response) : Prop where
  refused : ∀ kind message, result = .error (.io kind message) → ∀ e ∈ P.trace, e.pid = pid →
    e.before.SameTables e.after ∧ ∀ key, e.after.cache key = e.before.cache key ∨
      ∃ data, request = .checkpoint data ∧
        key = generateLeasedCheckpointKey data.workflowId data.position
  accepted : ∀ response, result = .ok response → ∀ e ∈ P.trace, e.pid = pid →
    StorageEvent.Acknowledged e ∨ ∃ data status createdAt name, request = .workflowStart data ∧
      e.op = .insertWorkflow data.workflowId status createdAt name

/-- **An answer accounts for what was done**: in every run, a request refused with
one of the handlers' own errors has changed no table, and no lease but that of
its own checkpoint; a request answered `Ok` had every call acknowledged, but for
the row of a start; and no request, answered or not, writes a table twice. -/
theorem answers_account (hr : P.Reached evictable) (hp : P.procs pid = some p) :
    (∀ t, P.trace.countP (fun e => e.pid == pid && e.op.writesTo t) ≤ 1) ∧
      ∀ result, answer p = some result → P.Accounts pid p.tag result := by
  have htrail := hr.sound.trail pid p hp
  rw [hr.sound.logged pid p hp] at htrail
  have hlogged : ∀ e ∈ P.trace, e.pid = pid →
      (⟨e.op, e.reply⟩ : (op : StorageCall) × op.Reply) ∈ Pool.logOf pid P.trace :=
    fun e he hpid => List.mem_map.mpr ⟨e, List.mem_filter.mpr ⟨he, beq_iff_eq.mpr hpid⟩, rfl⟩
  refine ⟨fun t => ?_, fun result hanswer => ?_⟩
  · have hcount := htrail.countP_le (p.tag.spends t)
    simpa [Pool.logOf, List.countP_map, List.countP_filter, Function.comp_def, Bool.and_comm]
      using hcount
  · rw [answer_eq_some.mp hanswer] at htrail
    constructor
    case refused =>
      rintro kind message rfl e he hpid
      have hquiet : ¬ Writes e.op e.reply := fun hwrites =>
        htrail.result_of_marked p.tag.settles.notRefused
          (hlogged e he hpid) hwrites kind message rfl
      obtain ⟨env, hafter⟩ := hr.after_eq he
      rw [hafter]
      by_cases htable : e.op.table = none
      · refine ⟨StorageCall.exec_sameTables env e.op e.before (.inl htable), fun key => .inl ?_⟩
        rcases StorageCall.exec_cache env e.op e.before key with hsame | ⟨lease, ttl, hop⟩ | hop
        · exact hsame
        · rw [hop] at htable
          contradiction
        · rw [hop] at htable
          contradiction
      · -- It has ended a lease: the request is a checkpoint, for a release refuses nothing.
        obtain ⟨deleted, hop⟩ : ∃ key, e.op = .cacheDelete key :=
          Classical.byContradiction fun hno => hquiet ⟨htable, fun key h => hno ⟨key, h⟩⟩
        obtain ⟨data, htag, hkey⟩ := ends_own_lease hr hp he hpid hop fun data htag => by
          have hfinally := htrail.finally (htag ▸ finally_releaseCheckpoint data)
          exact hfinally kind message rfl
        refine ⟨StorageCall.exec_sameTables env e.op e.before (by rw [hop]; exact .inr rfl), ?_⟩
        intro key
        rcases StorageCall.exec_cache env e.op e.before key with
          hsame | ⟨lease, ttl, hput⟩ | hdelete
        · exact .inl hsame
        · rw [hop] at hput
          contradiction
        · rw [hop] at hdelete
          cases hdelete
          exact .inr ⟨data, htag, hkey⟩
    case accepted =>
      rintro response rfl e he hpid
      have hfails : ¬ Fails p.tag.drops e.op e.reply := fun hfails => by
        obtain ⟨err, herr⟩ := htrail.result_of_marked p.tag.settles.rejected
          (hlogged e he hpid) hfails
        cases herr
      obtain ⟨env, hexec⟩ := hr.sound.executed e he
      have hcall : e.op.exec env e.before = (e.reply, e.after) := hexec
      by_cases herror : e.op.error? e.reply = none
      · refine .inl ⟨{ env with fault := .none }, rfl, ?_⟩
        rw [StorageCall.exec_of_error (by rw [hcall]; exact herror)]
        exact hcall
      · have hdropped : p.tag.drops e.op = true := by
          cases hd : p.tag.drops e.op with
          | true => rfl
          | false => exact absurd ⟨herror, hd⟩ hfails
        exact .inr (Request.exists_of_drops hdropped)

end Answers

/-- A lease asked for before the workflow was started is refused. -/
theorem early_lease_accounts : ∃ P : Handlers, ∃ p,
    runLabels (arrives 0 (payLease 1) 6) = some P ∧ P.procs 0 = some p ∧
      answer p = some (.error (.io .InvalidData "fencing_token_not_found")) ∧
      (∀ t, P.trace.countP (fun e => e.pid == 0 && e.op.writesTo t) ≤ 1) ∧
      ∀ result, answer p = some result → P.Accounts 0 p.tag result := by
  obtain ⟨P, h⟩ : ∃ P, runLabels (arrives 0 (payLease 1) 6) = some P :=
    Option.isSome_iff_exists.mp rfl
  have hanswer := eq_of_runLabels h (fun P => (P.procs 0).bind answer)
    (a := some (.error (.io .InvalidData "fencing_token_not_found"))) rfl
  obtain ⟨p, hp, hp'⟩ := Option.bind_eq_some_iff.mp hanswer
  exact ⟨P, p, h, hp, hp', answers_account (reached_of_runLabels h) hp⟩

end IdempotentTransformer
