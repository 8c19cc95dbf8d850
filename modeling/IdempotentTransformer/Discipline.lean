import IdempotentTransformer.Handle

/-!
# IdempotentTransformer.Discipline

What every handler keeps to, whoever else is running: each call and each
answer rests on the replies the handler has had.

* `Request.Calls` says what a call rests on, `Request.Answers` what an
  answer rests on;
* `Request.obeys` — every handler keeps to both, from its text alone.
-/

namespace IdempotentTransformer

open Library Program

/-- The calls of a handler with their replies, latest first. -/
abbrev CallLog := Log StorageCall StorageCall.Reply

/-- A call of the log and its reply. -/
def Replied (log : CallLog) (call : StorageCall) (reply : call.Reply) : Prop :=
  (⟨call, reply⟩ : (op : StorageCall) × op.Reply) ∈ log

theorem replied_self {log : CallLog} {call : StorageCall} {reply : call.Reply} :
    Replied (⟨call, reply⟩ :: log) call reply := List.mem_cons_self

theorem Replied.mono {log log' : CallLog} {call : StorageCall} {reply : call.Reply}
    (h : Replied log call reply) (hl : log ⊆ log') : Replied log' call reply := hl h

theorem Replied.cons {log : CallLog} {call : StorageCall} {reply : call.Reply}
    (h : Replied log call reply) (entry : (op : StorageCall) × op.Reply) :
    Replied (entry :: log) call reply := List.mem_cons_of_mem _ h

/-! ## The discipline -/

/-- What a handler's call rests on: a lease is written for a position found
without a row, under a token found to be the request's own, over no lease or
one found expired; a key is minted under a token found not to be newer. -/
def Request.Calls (request : Request) (log : CallLog) : StorageCall → Prop
  | .cachePut key lease _ => ∃ data, request = .leaseCheckpoint data ∧
      key = generateLeasedCheckpointKey data.workflowId data.position ∧
      lease.leaseTimeout = data.leaseTimeout ∧
      Replied log (.selectCheckpoint data.workflowId data.position) (Except.ok none) ∧
      Replied log (.selectFencingToken data.workflowId) (Except.ok (some data.fencingToken)) ∧
      ∃ found, Replied log (.cacheGet key) (Except.ok found) ∧
        ∀ leased ∈ found, ∃ now : Int, Replied log .utcNow now ∧ leased.Expired now
  | .cacheDelete key => request.endsLease = true ∧ ∃ workflowId position,
      request.leasePosition = some (workflowId, position) ∧
      key = generateLeasedCheckpointKey workflowId position
  | .insertFencingToken workflowId _ => ∃ data, request = .workflowStart data ∧
      data.workflowId = workflowId
  | .newV4 => ∃ data token, request = .generateIdempotencyKey data ∧
      Replied log (.selectFencingToken data.workflowId) (Except.ok (some token)) ∧
      token ≤ data.fencingToken
  | .deleteFencingTokens _ _ | .deleteCheckpoints _ _ | .deleteWorkflows _ _ =>
      request = .cleanUp
  | _ => True

/-- What a handler's answer rests on. -/
def Request.Answers (request : Request) (log : CallLog) : Except HandlerError Response → Prop
  | .ok (.leaseCheckpoint output) => output.response = none → ∃ data lease ttl,
      request = .leaseCheckpoint data ∧
      Replied log
        (.cachePut (generateLeasedCheckpointKey data.workflowId data.position) lease ttl)
        (Except.ok ())
  | .ok (.checkpoint output) => ∃ data token, request = .checkpoint data ∧
      Replied log (.selectFencingToken data.workflowId) (Except.ok (some token)) ∧
      output.abort = decide (data.fencingToken < token)
  | .ok (.workflowStart output) => ∃ data, request = .workflowStart data ∧
      Replied log (.insertFencingToken data.workflowId 1) (Except.ok output.fencingToken)
  | _ => True

/-- What a call rests on stays true as the handler goes on. -/
theorem Request.calls_stable (request : Request) : Stable request.Calls := by
  intro log log' call hl h
  cases call with
  | cachePut key lease ttl =>
      obtain ⟨data, hd, hk, ht, hrow, htoken, found, hfound, hexp⟩ := h
      refine ⟨data, hd, hk, ht, hrow.mono hl, htoken.mono hl, found, hfound.mono hl, ?_⟩
      intro leased hleased
      obtain ⟨now, hnow, he⟩ := hexp leased hleased
      exact ⟨now, hnow.mono hl, he⟩
  | newV4 =>
      obtain ⟨data, token, hd, htoken, hle⟩ := h
      exact ⟨data, token, hd, htoken.mono hl, hle⟩
  | _ => exact h

/-! ## Rules for handlers -/

namespace Handler

variable {α β : Type} {C : CallLog → StorageCall → Prop} {log : CallLog}

/-- From a log on, a handler's calls meet `C` and its result meets `Q`. -/
def Obeys (C : CallLog → StorageCall → Prop) (Q : CallLog → Except HandlerError α → Prop)
    (log : CallLog) (m : Handler α) : Prop :=
  Program.Obeys C Q log m.program

/-- What is asked of a result the handler goes on with: the rest obeys, and
an error is an answer. -/
def Then (C : CallLog → StorageCall → Prop) (Q : CallLog → Except HandlerError β → Prop)
    (f : α → Handler β) (log : CallLog) : Except HandlerError α → Prop
  | .ok a => (f a).Obeys C Q log
  | .error e => Q log (.error e)

theorem obeys_bind {Q : CallLog → Except HandlerError β → Prop} (m : Handler α)
    (f : α → Handler β) : (m >>= f).Obeys C Q log ↔ m.Obeys C (Then C Q f) log := by
  have hthen : (fun log' a => Program.Obeys C Q log' (andThen f a)) = Then C Q f := by
    funext log' a
    cases a <;> rfl
  show Program.Obeys C Q log (m.program.bind (andThen f)) ↔ _
  rw [Program.obeys_bind, hthen]
  rfl

theorem obeys_ofResult {Q : CallLog → Except HandlerError α → Prop}
    (r : Except HandlerError α) :
    (ofResult r).Obeys C Q log ↔ Q log r := Iff.rfl

theorem obeys_lock {Q : CallLog → Except HandlerError Unit → Prop} (key : String) :
    (lock key).Obeys C Q log ↔ Q log (.ok ()) ∧ Q log (.error (.hiqlite .failed)) := by
  simp [Obeys, lock, and_comm]

theorem obeys_dropGuard {Q : CallLog → Except HandlerError Unit → Prop} (key : String) :
    (dropGuard key).Obeys C Q log ↔ Q log (.ok ()) := Iff.rfl

/-- Both sides of a `join` obey, each towards what it leaves behind; the rest
starts from both. -/
theorem obeys_join {A : CallLog → Except HandlerError α → Prop}
    {B : CallLog → Except HandlerError β → Prop}
    {Q : CallLog → Except HandlerError (Except HandlerError α × Except HandlerError β) → Prop}
    (hC : Stable C) (hA : Stable A) (hB : Stable B) {a : Handler α} {b : Handler β}
    (ha : a.Obeys C A log) (hb : b.Obeys C B log)
    (hQ : ∀ log' ra rb, log ⊆ log' → A log' ra → B log' rb → Q log' (.ok (ra, rb))) :
    (join a b).Obeys C Q log := by
  simp only [Obeys, join, mapResult, Program.obeys_bind]
  exact (Program.obeys_join hC hA hB ha hb).imp fun log' ab hl h => hQ log' ab.1 ab.2 hl h.1 h.2

end Handler

theorem obeys_returnErrorIfTrue {C : CallLog → StorageCall → Prop} {log : CallLog}
    {Q : CallLog → Except HandlerError Unit → Prop} (condition : Bool) (status : HandlerError) :
    (returnErrorIfTrue condition status).Obeys C Q log ↔
      if condition then Q log (.error status) else Q log (.ok ()) := by
  cases condition <;> rfl

section Rules

variable {C : CallLog → StorageCall → Prop} {log : CallLog} (workflowId : String)
  (position : Int)

theorem obeys_utcNow {Q : CallLog → Except HandlerError Int → Prop} :
    utcNow.Obeys C Q log ↔ C log .utcNow ∧ ∀ now : Int, Q (⟨.utcNow, now⟩ :: log) (.ok now) :=
  Iff.rfl

theorem obeys_newV4 {Q : CallLog → Except HandlerError String → Prop} :
    newV4.Obeys C Q log ↔
      C log .newV4 ∧ ∀ minted : String, Q (⟨.newV4, minted⟩ :: log) (.ok minted) := Iff.rfl

theorem obeys_isLeaderDb {Q : CallLog → Except HandlerError Bool → Prop} :
    isLeaderDb.Obeys C Q log ↔
      C log .isLeaderDb ∧ ∀ leader : Bool, Q (⟨.isLeaderDb, leader⟩ :: log)
        (.ok leader) := Iff.rfl

theorem obeys_diffLeaseExpiryFromNow {Q : CallLog → Except HandlerError Int → Prop}
    (leased : LeasedCheckpointValue) :
    (diffLeaseExpiryFromNow leased).Obeys C Q log ↔
      C log .utcNow ∧
        ∀ now : Int, Q (⟨.utcNow, now⟩ :: log) (.ok (remainingLeaseTimeout leased now)) :=
          Iff.rfl

theorem obeys_getCheckpoint
    {Q : CallLog → Except HandlerError (Option CheckpointValue) → Prop} :
    (getCheckpoint workflowId position).Obeys C Q log ↔
      C log (.selectCheckpoint workflowId position) ∧
        ∀ r : Except HiqliteError (Option CheckpointValue),
          Q (⟨.selectCheckpoint workflowId position, r⟩ :: log) (r.mapError .hiqlite) := Iff.rfl

theorem obeys_getLeasedCheckpoint
    {Q : CallLog → Except HandlerError (Option LeasedCheckpointValue) → Prop} :
    (getLeasedCheckpoint workflowId position).Obeys C Q log ↔
      C log (.cacheGet (generateLeasedCheckpointKey workflowId position)) ∧
        ∀ r : Except HiqliteError (Option LeasedCheckpointValue),
          Q (⟨.cacheGet (generateLeasedCheckpointKey workflowId position), r⟩ :: log)
            (r.mapError .hiqlite) := Iff.rfl

theorem obeys_getWorkflowFencingToken {Q : CallLog → Except HandlerError (Option Int) → Prop} :
    (getWorkflowFencingToken workflowId).Obeys C Q log ↔
      C log (.selectFencingToken workflowId) ∧
        ∀ r : Except HiqliteError (Option Int),
          Q (⟨.selectFencingToken workflowId, r⟩ :: log) (r.mapError .hiqlite) := Iff.rfl

theorem obeys_incrementWorkflowFencingToken {Q : CallLog → Except HandlerError Int → Prop}
    (fencingToken : Int) :
    (incrementWorkflowFencingToken workflowId fencingToken).Obeys C Q log ↔
      C log (.insertFencingToken workflowId fencingToken) ∧
        ∀ r : Except HiqliteError Int,
          Q (⟨.insertFencingToken workflowId fencingToken, r⟩ :: log) (r.mapError .hiqlite) :=
  Iff.rfl

theorem obeys_leaseCheckpoint {Q : CallLog → Except HandlerError LeasedCheckpointValue → Prop}
    (leaseTimeout : Int) :
    (leaseCheckpoint workflowId position leaseTimeout).Obeys C Q log ↔
      C log .utcNow ∧ ∀ now : Int,
        let lease : LeasedCheckpointValue := { leaseTimeout := leaseTimeout, createdAt := now }
        let put : StorageCall :=
          .cachePut (generateLeasedCheckpointKey workflowId position) lease
          (cacheTtl leaseTimeout)
        C (⟨.utcNow, now⟩ :: log) put ∧ ∀ r : Except HiqliteError Unit,
          Q (⟨put, r⟩ :: ⟨.utcNow, now⟩ :: log) ((r.mapError .hiqlite).map fun _ => lease) := by
  rw [leaseCheckpoint, Handler.obeys_bind, obeys_utcNow]
  refine and_congr_right fun _ => forall_congr' fun now => ?_
  rw [Handler.Then, Handler.obeys_bind]
  refine and_congr_right fun _ => forall_congr' fun (r : Except HiqliteError Unit) => ?_
  cases r <;> rfl

theorem obeys_removeLeasedCheckpoint
    {Q : CallLog → Except HandlerError (Option LeasedCheckpointValue) → Prop}
    (hget : C log (.cacheGet (generateLeasedCheckpointKey workflowId position)))
    (hdelete : ∀ log', C log' (.cacheDelete (generateLeasedCheckpointKey workflowId position)))
    (hQ : ∀ log' r, log ⊆ log' → Q log' r) :
    (removeLeasedCheckpoint workflowId position).Obeys C Q log := by
  have hone : ∀ entry, log ⊆ entry :: log := fun entry => List.subset_cons_self entry log
  rw [removeLeasedCheckpoint, Handler.obeys_bind]
  refine ⟨hget, fun (r : Except HiqliteError (Option LeasedCheckpointValue)) => ?_⟩
  cases r with
  | error e => exact hQ _ _ (hone _)
  | ok found =>
      refine ⟨hdelete _, fun (r : Except HiqliteError Unit) => ?_⟩
      have htwo : ∀ entry entry', log ⊆ entry' :: entry :: log := fun entry entry' =>
        List.Subset.trans (hone entry) (List.subset_cons_self entry' _)
      cases r with
      | error e => exact hQ _ _ (htwo _ _)
      | ok _ => exact hQ _ _ (htwo _ _)

theorem obeys_createCheckpoint {Q : CallLog → Except HandlerError Unit → Prop}
    (value : Option Bytes) (idempotencyKey : String) (hnow : C log .utcNow)
    (hinsert : ∀ log' createdAt, log ⊆ log' →
      C log' (.insertCheckpoint workflowId position idempotencyKey value createdAt))
    (hQ : ∀ log' r, log ⊆ log' → Q log' r) :
    (createCheckpoint workflowId value position idempotencyKey).Obeys C Q log := by
  rw [createCheckpoint, Handler.obeys_bind]
  refine ⟨hnow, fun now => ⟨hinsert _ _ (List.subset_cons_self _ _), fun r => hQ _ _ ?_⟩⟩
  exact List.Subset.trans (List.subset_cons_self _ _) (List.subset_cons_self _ _)

end Rules

/-! ## Every handler keeps to it -/

/-- A result that only gets wrapped into its response. -/
theorem obeys_wrap {α : Type} {C : CallLog → StorageCall → Prop}
    {Q : CallLog → Except HandlerError Response → Prop} {log : CallLog} {m : Handler α}
    {f : α → Response} :
    (m >>= fun a => pure (f a)).Obeys C Q log ↔
      m.Obeys C (fun log' r => Q log' (r.map f)) log := by
  rw [Handler.obeys_bind]
  have hthen : Handler.Then C Q (fun a => pure (f a)) = fun log' r => Q log' (r.map f) := by
    funext log' r
    cases r <;> rfl
  rw [hthen]

section LeaseRules

variable {C : CallLog → StorageCall → Prop}
  {Q : CallLog → Except HandlerError LeaseCheckpointOutput → Prop} {log : CallLog}
  (data : LeaseCheckpointInput)

/-- The lease is written only under a token found to be the request's own. -/
theorem obeys_grantLease (token : Option Int) (hnow : C log .utcNow)
    (hput : token = some data.fencingToken → ∀ now : Int, C (⟨.utcNow, now⟩ :: log)
      (.cachePut (generateLeasedCheckpointKey data.workflowId data.position)
        { leaseTimeout := data.leaseTimeout, createdAt := now } (cacheTtl data.leaseTimeout)))
    (herror : ∀ log' e, Q log' (.error e))
    (hgranted : ∀ log' lease ttl, Replied log'
      (.cachePut (generateLeasedCheckpointKey data.workflowId data.position) lease ttl)
        (Except.ok ()) → Q log' (.ok { response := none })) :
    (grantLease data token).Obeys C Q log := by
  rw [grantLease]
  simp only [Handler.obeys_bind, obeys_returnErrorIfTrue, Handler.Then]
  cases token with
  | none => exact herror log _
  | some stored =>
      simp only [Option.isNone_some, Bool.false_eq_true, if_false, Option.getD_some]
      split
      · exact herror log _
      · split
        · next heq =>
            subst heq
            rw [Handler.obeys_bind, obeys_leaseCheckpoint]
            refine ⟨hnow, fun now => ⟨hput rfl now, fun r => ?_⟩⟩
            cases r with
            | error e => exact herror _ _
            | ok _ => exact hgranted _ _ _ replied_self
        · exact herror log _

/-- What is left of `handle_lease_checkpoint` once no row was found: lease and
token are read, in either order, and a lease is written only over none or one
found expired. -/
theorem obeys_leaseWithoutRow (hC : Stable C)
    (hget : C log (.cacheGet (generateLeasedCheckpointKey data.workflowId data.position)))
    (htoken : C log (.selectFencingToken data.workflowId))
    (hnow : ∀ log', log ⊆ log' → C log' .utcNow)
    (hput : ∀ log' lease ttl, log ⊆ log' → lease.leaseTimeout = data.leaseTimeout →
      Replied log' (.selectFencingToken data.workflowId) (Except.ok (some data.fencingToken)) →
      (∃ found, Replied log'
          (.cacheGet (generateLeasedCheckpointKey data.workflowId data.position))
            (Except.ok found) ∧
        ∀ leased ∈ found, ∃ now : Int, Replied log' .utcNow now ∧ leased.Expired now) →
      C log' (.cachePut (generateLeasedCheckpointKey data.workflowId data.position) lease ttl))
    (herror : ∀ log' e, Q log' (.error e))
    (hremaining : ∀ log' remaining,
      Q log' (.ok { response := some (.RemainingLeaseTimeout remaining) }))
    (hgranted : ∀ log' lease ttl, Replied log'
      (.cachePut (generateLeasedCheckpointKey data.workflowId data.position) lease ttl)
        (Except.ok ()) → Q log' (.ok { response := none })) :
    (leaseWithoutRow data).Obeys C Q log := by
  rw [leaseWithoutRow]
  simp only [Handler.obeys_bind, Handler.obeys_lock, Handler.obeys_dropGuard, Handler.Then]
  refine ⟨?_, herror log _⟩
  refine Handler.obeys_join hC
    (A := fun log r => ∀ found, r = .ok found → Replied log
      (.cacheGet (generateLeasedCheckpointKey data.workflowId data.position)) (Except.ok found))
    (B := fun log r => ∀ token, r = .ok token →
      Replied log (.selectFencingToken data.workflowId) (Except.ok token))
    (fun _ _ _ hl h found hr => (h found hr).mono hl)
    (fun _ _ _ hl h token hr => (h token hr).mono hl) ?_ ?_ ?_
  · rw [obeys_getLeasedCheckpoint]
    refine ⟨hget, fun r found hr => ?_⟩
    cases r with
    | error e => cases hr
    | ok found' => cases hr; exact replied_self
  · rw [obeys_getWorkflowFencingToken]
    refine ⟨htoken, fun r token hr => ?_⟩
    cases r with
    | error e => cases hr
    | ok token' => cases hr; exact replied_self
  · intro log' leasedResult tokenResult hl hleased htoken'
    cases leasedResult with
    | error e => exact herror log' e
    | ok found =>
        cases tokenResult with
        | error e => exact herror log' e
        | ok token =>
            have hfound := hleased found rfl
            have htoken' := htoken' token rfl
            simp only [Handler.Then, Handler.obeys_bind, Handler.obeys_ofResult]
            cases found with
            | none =>
                refine obeys_grantLease data token (hnow log' hl)
                  (fun htok now => ?_) herror hgranted
                subst htok
                refine hput _ _ _ (List.Subset.trans hl (List.subset_cons_self _ _)) rfl
                  (htoken'.cons _) ⟨none, hfound.cons _, by simp⟩
            | some leased =>
                simp only [Handler.obeys_bind, obeys_diffLeaseExpiryFromNow, Handler.Then]
                refine ⟨hnow log' hl, fun now => ?_⟩
                have hl' : log ⊆ (⟨.utcNow, now⟩ : (op : StorageCall) × op.Reply) :: log' :=
                  List.Subset.trans hl (List.subset_cons_self _ _)
                split
                · exact hremaining _ _
                · next hexp =>
                    refine obeys_grantLease data token (hnow _ hl') (fun htok now' => ?_) herror
                      hgranted
                    subst htok
                    refine hput _ _ _ (List.Subset.trans hl' (List.subset_cons_self _ _)) rfl
                      ((htoken'.cons _).cons _) ⟨some leased, (hfound.cons _).cons _, ?_⟩
                    intro leased' hleased'
                    cases hleased'
                    exact ⟨now, replied_self.cons _, Int.not_lt.mp hexp⟩

end LeaseRules

theorem Request.obeys_leaseCheckpoint (data : LeaseCheckpointInput) :
    (Request.leaseCheckpoint data).handler.Obeys (Request.leaseCheckpoint data).Calls
      (Request.leaseCheckpoint data).Answers [] := by
  rw [Request.handler, obeys_wrap, handleLeaseCheckpoint_eq, Handler.obeys_bind,
    obeys_getCheckpoint]
  refine ⟨trivial, ?_⟩
  rintro (e | _ | row)
  · trivial
  · refine obeys_leaseWithoutRow data (Request.calls_stable _) trivial trivial
      (fun _ _ => trivial) ?_ (fun _ _ => trivial) (fun _ _ h => by cases h) ?_
    · intro log lease ttl hl htimeout htoken hlease
      exact ⟨data, rfl, rfl, htimeout, hl List.mem_cons_self, htoken, hlease⟩
    · exact fun log lease ttl hput _ => ⟨data, lease, ttl, rfl, hput⟩
  · simp only [Except.mapError, Handler.Then, answerFromRow, Handler.obeys_bind,
      obeys_returnErrorIfTrue]
    split
    · trivial
    · split
      · trivial
      · exact fun h => by cases h

section CheckpointRules

variable {C : CallLog → StorageCall → Prop}
  {Q : CallLog → Except HandlerError CheckpointOutput → Prop} {log : CallLog}
  (data : CheckpointInput)

/-- The row is stored under the token found. -/
theorem obeys_storeResult {stored : Int} (hnow : C log .utcNow)
    (htoken : Replied log (.selectFencingToken data.workflowId) (Except.ok (some stored)))
    (hinsert : ∀ log' createdAt, log ⊆ log' → C log' (.insertCheckpoint data.workflowId
      data.position data.idempotencyKey (some data.value) createdAt))
    (herror : ∀ log' e, Q log' (.error e))
    (hok : ∀ log', Replied log' (.selectFencingToken data.workflowId)
      (Except.ok (some stored)) →
      Q log' (.ok { abort := decide (stored > data.fencingToken) })) :
    (storeResult data (decide (stored > data.fencingToken))).Obeys C Q log := by
  rw [storeResult, Handler.obeys_bind]
  refine obeys_createCheckpoint _ _ _ _ hnow hinsert fun log' r hl => ?_
  cases r with
  | error e => exact herror log' e
  | ok _ => exact hok log' (htoken.mono hl)

/-- `handle_checkpoint`: the row is inserted, and the answer given, under the
token found. -/
theorem obeys_handleCheckpoint (hC : Stable C)
    (hread : C log (.selectFencingToken data.workflowId))
    (hget : C log (.cacheGet (generateLeasedCheckpointKey data.workflowId data.position)))
    (hdelete : ∀ log',
      C log' (.cacheDelete (generateLeasedCheckpointKey data.workflowId data.position)))
    (hnow : ∀ log', log ⊆ log' → C log' .utcNow)
    (hinsert : ∀ log' stored createdAt, log ⊆ log' →
      Replied log' (.selectFencingToken data.workflowId) (Except.ok (some stored)) →
      C log' (.insertCheckpoint data.workflowId data.position data.idempotencyKey
        (some data.value) createdAt))
    (herror : ∀ log' e, Q log' (.error e))
    (hok : ∀ log' stored,
      Replied log' (.selectFencingToken data.workflowId) (Except.ok (some stored)) →
      Q log' (.ok { abort := decide (stored > data.fencingToken) })) :
    (handleCheckpoint data).Obeys C Q log := by
  rw [handleCheckpoint, Handler.obeys_bind]
  refine Handler.obeys_join hC
    (A := fun log r => ∀ token, r = .ok token →
      Replied log (.selectFencingToken data.workflowId)
      (Except.ok token)) (B := fun _ _ => True)
    (fun _ _ _ hl h token hr => (h token hr).mono hl) (fun _ _ _ _ _ => trivial) ?_ ?_ ?_
  · rw [obeys_getWorkflowFencingToken]
    refine ⟨hread, fun r token hr => ?_⟩
    cases r with
    | error e => cases hr
    | ok token' => cases hr; exact replied_self
  · exact obeys_removeLeasedCheckpoint _ _ hget hdelete (fun _ _ _ => trivial)
  · intro log' tokenResult leasedResult hl htoken _
    cases tokenResult with
    | error e => exact herror log' e
    | ok token =>
        have htoken := htoken token rfl
        simp only [Handler.Then, Handler.obeys_bind, Handler.obeys_ofResult]
        cases leasedResult with
        | error e => exact herror log' e
        | ok found =>
            cases token with
            | none => exact herror log' _
            | some stored =>
                simp only [Handler.Then, obeys_returnErrorIfTrue, Option.isNone_some,
                  Bool.false_eq_true, if_false]
                cases found with
                | none =>
                    exact obeys_storeResult data (hnow log' hl) htoken
                      (fun _ _ hl' => hinsert _ _ _ (List.Subset.trans hl hl')
                        (htoken.mono hl'))
                      herror fun log'' => hok log'' stored
                | some leased =>
                    simp only [Handler.obeys_bind, obeys_diffLeaseExpiryFromNow, Handler.Then]
                    refine ⟨hnow log' hl, fun now => ?_⟩
                    have hl' : log ⊆ (⟨.utcNow, now⟩ : (op : StorageCall) × op.Reply) :: log' :=
                      List.Subset.trans hl (List.subset_cons_self _ _)
                    have htoken' := htoken.cons ⟨.utcNow, now⟩
                    have hstore := obeys_storeResult data (hnow _ hl') htoken'
                      (fun _ _ hl'' => hinsert _ _ _ (List.Subset.trans hl' hl'')
                        (htoken'.mono hl''))
                      herror fun log'' => hok log'' stored
                    split
                    · simp only [Handler.obeys_bind, obeys_returnErrorIfTrue]
                      split
                      · exact herror _ _
                      · exact hstore
                    · exact hstore

end CheckpointRules

theorem Request.obeys_checkpoint (data : CheckpointInput) :
    (Request.checkpoint data).handler.Obeys (Request.checkpoint data).Calls
      (Request.checkpoint data).Answers [] := by
  rw [Request.handler, obeys_wrap]
  exact obeys_handleCheckpoint data (Request.calls_stable _) trivial trivial
    (fun _ => ⟨rfl, _, _, rfl, rfl⟩) (fun _ _ => trivial) (fun _ _ _ _ _ => trivial)
    (fun _ _ => trivial) fun _ stored htoken => ⟨data, stored, rfl, htoken, rfl⟩

theorem Request.obeys_releaseCheckpoint (data : ReleaseCheckpointInput) :
    (Request.releaseCheckpoint data).handler.Obeys (Request.releaseCheckpoint data).Calls
      (Request.releaseCheckpoint data).Answers [] := by
  rw [Request.handler, obeys_wrap, IdempotentTransformer.releaseCheckpoint, Handler.obeys_bind]
  refine obeys_removeLeasedCheckpoint _ _ trivial (fun _ => ⟨rfl, _, _, rfl, rfl⟩) ?_
  intro log r _
  cases r <;> trivial

/-- `create_durable_idempotency_key`: the key is minted and inserted under a
token found not to be newer. -/
theorem obeys_createDurableIdempotencyKey {C : CallLog → StorageCall → Prop} {log : CallLog}
    {Q : CallLog → Except HandlerError CreateDurableIdempotencyKeyOutput → Prop}
    (data : CreateDurableIdempotencyKeyInput)
    (hrow : C log (.selectCheckpoint data.workflowId data.position))
    (hread : ∀ log', log ⊆ log' → C log' (.selectFencingToken data.workflowId))
    (hnow : ∀ log', log ⊆ log' → C log' .utcNow)
    (hmint : ∀ log' stored, Replied log' (.selectFencingToken data.workflowId)
      (Except.ok (some stored)) → stored ≤ data.fencingToken → C log' .newV4)
    (hinsert : ∀ log' stored idempotencyKey createdAt, Replied log'
      (.selectFencingToken data.workflowId) (Except.ok (some stored)) →
      C log' (.insertCheckpoint data.workflowId data.position idempotencyKey none createdAt))
    (hQ : ∀ log' r, Q log' r) : (createDurableIdempotencyKey data).Obeys C Q log := by
  rw [createDurableIdempotencyKey]
  simp only [Handler.obeys_bind, Handler.obeys_lock, Handler.obeys_dropGuard, Handler.Then,
    obeys_getCheckpoint]
  refine ⟨⟨hrow, ?_⟩, hQ _ _⟩
  rintro (e | _ | row)
  · exact hQ _ _
  · -- No row was found: the key is minted under the token read here.
    simp only [Except.mapError, Handler.Then, Handler.obeys_bind, obeys_getWorkflowFencingToken]
    refine ⟨hread _ (List.subset_cons_self _ _), ?_⟩
    rintro (e | _ | stored)
    · exact hQ _ _
    · exact hQ _ _
    · simp only [Handler.Then, Handler.obeys_bind, obeys_returnErrorIfTrue, Option.isNone_some,
        Bool.false_eq_true, if_false]
      split
      · exact hQ _ _
      · next hle =>
          simp only [Handler.obeys_bind, obeys_newV4, Handler.Then]
          refine ⟨hmint _ stored replied_self (by simpa using hle), fun minted => ?_⟩
          refine obeys_createCheckpoint _ _ _ _ (hnow _ ?_) (fun log' createdAt hl => ?_)
            fun log' r _ => ?_
          · exact fun entry hentry => List.mem_cons_of_mem _ (List.mem_cons_of_mem _
              (List.mem_cons_of_mem _ hentry))
          · exact hinsert _ stored _ _ (replied_self.mono (List.Subset.trans
              (List.subset_cons_self _ _) hl))
          · cases r <;> exact hQ _ _
  · exact hQ _ _

theorem Request.obeys_generateIdempotencyKey (data : CreateDurableIdempotencyKeyInput) :
    (Request.generateIdempotencyKey data).handler.Obeys
      (Request.generateIdempotencyKey data).Calls
      (Request.generateIdempotencyKey data).Answers [] := by
  rw [Request.handler, obeys_wrap]
  refine obeys_createDurableIdempotencyKey data trivial (fun _ _ => trivial)
    (fun _ _ => trivial)
    (fun _ stored htoken hle => ⟨data, stored, rfl, htoken, hle⟩) (fun _ _ _ _ _ => trivial)
    fun _ r => ?_
  cases r <;> trivial

theorem Request.obeys_workflowStart (data : CreateWorkflowInput) :
    (Request.workflowStart data).handler.Obeys (Request.workflowStart data).Calls
      (Request.workflowStart data).Answers [] := by
  rw [Request.handler, obeys_wrap, createWorkflow, Handler.obeys_bind]
  refine Handler.obeys_join (Request.calls_stable _) (A := fun _ _ => True)
    (B := fun log r => ∀ token, r = .ok token →
      Replied log (.insertFencingToken data.workflowId 1) (Except.ok token))
    (fun _ _ _ _ _ => trivial) (fun _ _ _ hl h token hr => (h token hr).mono hl) ?_ ?_ ?_
  · exact ⟨trivial, fun _ => ⟨trivial, fun _ => trivial⟩⟩
  · rw [obeys_incrementWorkflowFencingToken]
    refine ⟨⟨data, rfl, rfl⟩, fun r token hr => ?_⟩
    cases r with
    | error e => cases hr
    | ok token' => cases hr; exact replied_self
  · intro log workflow tokenResult _ _ htoken
    cases tokenResult with
    | error e => trivial
    | ok token => exact ⟨data, rfl, htoken token rfl⟩

theorem Request.obeys_completeWorkflow (data : FinishWorkflowInput) :
    (Request.completeWorkflow data).handler.Obeys (Request.completeWorkflow data).Calls
      (Request.completeWorkflow data).Answers [] := by
  rw [Request.handler, obeys_wrap, finishWorkflow]
  simp only [Handler.obeys_bind, obeys_getWorkflowFencingToken]
  refine ⟨trivial, ?_⟩
  rintro (e | token)
  · trivial
  · simp only [Except.mapError, Handler.Then, Handler.obeys_bind, obeys_returnErrorIfTrue,
      obeys_utcNow]
    split
    · trivial
    · split
      · trivial
      · refine ⟨trivial, fun now => ⟨trivial, fun now' => ⟨trivial, ?_⟩⟩⟩
        rintro (e | _) <;> trivial

theorem Request.obeys_cleanUp :
    Request.cleanUp.handler.Obeys Request.cleanUp.Calls Request.cleanUp.Answers [] := by
  rw [Request.handler, obeys_wrap, handleWorkflowCleanup, Handler.obeys_bind, obeys_isLeaderDb]
  refine ⟨trivial, ?_⟩
  rintro (_ | _)
  · trivial
  · simp only [Handler.Then, Bool.not_true, Bool.false_eq_true, if_false, Handler.obeys_bind,
      obeys_utcNow]
    refine ⟨trivial, fun now => ?_⟩
    refine Handler.obeys_join (Request.calls_stable _) (A := fun _ _ => True)
      (B := fun _ _ => True) (fun _ _ _ _ _ => trivial) (fun _ _ _ _ _ => trivial) ?_ ?_ ?_
    · exact ⟨rfl, fun _ => trivial⟩
    · exact ⟨rfl, fun _ => trivial⟩
    · rintro log (e | _) (e | _) - - -
      · trivial
      · trivial
      · trivial
      · exact ⟨rfl, by rintro (e | _) <;> trivial⟩

/-- **Every handler keeps to its discipline.** -/
theorem Request.obeys (request : Request) :
    Program.Obeys request.Calls request.Answers [] request.handler.program := by
  cases request with
  | workflowStart data => exact Request.obeys_workflowStart data
  | checkpoint data => exact Request.obeys_checkpoint data
  | leaseCheckpoint data => exact Request.obeys_leaseCheckpoint data
  | completeWorkflow data => exact Request.obeys_completeWorkflow data
  | workflowStatus workflowId => exact ⟨trivial, by rintro (e | workflow) <;> trivial⟩
  | releaseCheckpoint data => exact Request.obeys_releaseCheckpoint data
  | generateIdempotencyKey data => exact Request.obeys_generateIdempotencyKey data
  | cleanUp => exact Request.obeys_cleanUp

end IdempotentTransformer
