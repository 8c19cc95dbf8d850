import IdempotentTransformer.Fencing

/-!
# IdempotentTransformer.Tokens

Fencing tokens over the whole life of a workflow id, in every interleaving
of storage calls.

The upsert counts up from the row it finds, and starts over where it finds
none.  As long as it does not start over once a token has been issued, no
token is issued twice, later ones are greater, the stored one is the
greatest, and no lease request meets the handler's "unexpected state".
Cleanup deletes the row together with its workflow; the next start of the
id then counts from one again.
-/

namespace IdempotentTransformer

open Library

variable {evictable : CachedLease → Int → Bool} {P P' P₁ P₂ : Handlers} {id : String}

/-! ## Tokens issued and returned -/

/-- A call of a run was told this token by its upsert. -/
def Handlers.Told (P : Handlers) (pid : Nat) (id : String) (token : Int) : Prop :=
  ∃ fencingToken, Replied (Pool.logOf pid P.trace) (.insertFencingToken id fencingToken)
    (Except.ok token)

/-- A token of the workflow was issued. -/
def Handlers.Issued (P : Handlers) (id : String) (token : Int) : Prop :=
  ∃ pid, P.Told pid id token

/-- The workflow a call has started and the token it returned. -/
def started
    (p : Process StorageCall StorageCall.Reply String (Except HandlerError Response) Request) :
    Option (String × Int) :=
  match p.tag, answer p with
  | .workflowStart data, some (.ok (.workflowStart output)) =>
      some (data.workflowId, output.fencingToken)
  | _, _ => none

/-- A call to start the workflow has returned this token. -/
def Handlers.Returned (P : Handlers) (pid : Nat) (id : String) (token : Int) : Prop :=
  (P.procs pid).bind started = some (id, token)

/-- What a start returns it was told. -/
theorem Handlers.Returned.told (hr : P.Reached evictable) {pid : Nat} {token : Int}
    (h : P.Returned pid id token) : P.Told pid id token := by
  rw [Handlers.Returned, Option.bind_eq_some_iff] at h
  obtain ⟨p, hp, hs⟩ := h
  have hanswers := hr.sound.obeys hp (Request.obeys p.tag)
  unfold started at hs
  split at hs
  · next data output htag hrest =>
      cases hs
      rw [htag, answer_eq_some.mp hrest] at hanswers
      obtain ⟨data', hd, hreplied⟩ := hanswers
      cases hd
      exact ⟨1, hreplied⟩
  · contradiction

/-- A call that has not arrived was told nothing. -/
theorem Handlers.Told.arrived (hr : P.Reached evictable) {pid : Nat} {token : Int}
    (h : P.Told pid id token) : P.procs pid ≠ none := by
  intro hnone
  obtain ⟨fencingToken, hreplied⟩ := h
  rw [hr.sound.logOf_eq_nil hnone] at hreplied
  contradiction

/-! ## The condition -/

/-- The step does not start over: a token is inserted where none is stored
only if none of the workflow was issued. -/
def Handlers.KeepsTokens (id : String) (P : Handlers) : Pool.Label Request Env Drift → Prop
  | .advance pid _ _ => ∀ p fencingToken next, P.procs pid = some p →
      p.rest = .call (.insertFencingToken id fencingToken) next →
      P.shared.fencingTokens id = none → ∀ token, ¬ P.Issued id token
  | _ => True

/-- The states of the runs, from any stored world, that never start over. -/
def Handlers.Counting (evictable : CachedLease → Int → Bool) (id : String)
    (P : Handlers) : Prop :=
  Reachable (Pool.step (serverMachine evictable)) (Handlers.KeepsTokens id)
    (fun P => ∃ w, P = Pool.start w) P

/-- The states reached from `P` without starting over. -/
def Handlers.CountsTo (evictable : CachedLease → Int → Bool) (id : String)
    (P P' : Handlers) : Prop :=
  Reachable (Pool.step (serverMachine evictable)) (Handlers.KeepsTokens id) (· = P) P'

theorem Handlers.Counting.reached (h : P.Counting evictable id) : P.Reached evictable :=
  h.mono fun _ _ _ => trivial

/-! ## One step -/

/-- The token of a workflow after a call: as it was, or gone, or counted up. -/
theorem StorageCall.exec_fencingTokens (env : Env) (call : StorageCall)
    (w : World) (id : String) :
    (call.exec env w).2.fencingTokens id = w.fencingTokens id ∨
      (call.exec env w).2.fencingTokens id = none ∨
      ∃ fencingToken, call = .insertFencingToken id fencingToken ∧
        (call.exec env w).2.fencingTokens id =
          some (upsertFencingToken (w.fencingTokens id) fencingToken) := by
  refine exec_preserves env call w (fun w' => w'.fencingTokens id = w.fencingTokens id ∨
    w'.fencingTokens id = none ∨ ∃ fencingToken, call = .insertFencingToken id fencingToken ∧
      w'.fencingTokens id = some (upsertFencingToken (w.fencingTokens id) fencingToken))
    (.inl rfl) fun _ => ?_
  cases call with
  | insertFencingToken workflowId fencingToken =>
      simp only [effect, exec, Fault.apply, World.setFencingToken_fencingTokens]
      split
      · next heq =>
          subst heq
          exact .inr (.inr ⟨fencingToken, rfl, rfl⟩)
      · exact .inl rfl
  | deleteFencingTokens currentTimestamp status =>
      simp only [effect, exec, Fault.apply]
      split
      · exact .inr (.inl rfl)
      · exact .inl rfl
  | updateWorkflow expireAt status completedAt workflowId =>
      left
      rw [effect_updateWorkflow env w World.fencingTokens fun _ _ => rfl]
  | _ => exact .inl rfl

/-- **What a step does to a workflow's tokens**: it tells nobody a token and
leaves the stored one or deletes it, or it counts up, and tells nobody but the
caller. -/
theorem tokens_step {l : Pool.Label Request Env Drift}
    (hs : Pool.step (serverMachine evictable) P l = some P') (id : String) :
    ((P'.shared.fencingTokens id = P.shared.fencingTokens id ∨
      P'.shared.fencingTokens id = none) ∧
        ∀ pid token, P'.Told pid id token → P.Told pid id token) ∨
      ∃ pid choice env p fencingToken next, l = .advance pid choice env ∧ P.procs pid = some p ∧
        p.rest = .call (.insertFencingToken id fencingToken) next ∧
        P'.shared.fencingTokens id =
          some (upsertFencingToken (P.shared.fencingTokens id) fencingToken) ∧
        ∀ pid' token, P'.Told pid' id token → P.Told pid' id token ∨
          pid' = pid ∧ token = upsertFencingToken (P.shared.fencingTokens id) fencingToken := by
  rcases Pool.step_cases hs with ⟨pid, tag, -, -, rfl⟩ |
    ⟨pid, choice, env, p, call, next, rfl, hp, hrest, rfl⟩ |
    ⟨pid, choice, env, p, rest, held, -, -, -, rfl⟩ | ⟨d, w, -, hd, rfl⟩
  · exact .inl ⟨.inl rfl, fun _ _ h => h⟩
  · have htold : ∀ pid' token,
        Handlers.Told (P.perform pid p call next (call.exec env P.shared)) pid' id token →
        P.Told pid' id token ∨ pid' = pid ∧
          ∃ fencingToken, call = .insertFencingToken id fencingToken ∧
          token = upsertFencingToken (P.shared.fencingTokens id) fencingToken ∧
          (call.exec env P.shared).2.fencingTokens id = some token := by
      rintro pid' token ⟨fencingToken, hreplied⟩
      rw [Pool.perform_trace] at hreplied
      by_cases heq : pid = pid'
      · rw [Pool.logOf_cons_self heq] at hreplied
        rcases List.mem_cons.mp hreplied with hhead | htail
        · injection hhead with hcall hreply
          subst hcall
          have hexec : StorageCall.exec env (.insertFencingToken id fencingToken) P.shared =
              (Except.ok token,
                (StorageCall.exec env (.insertFencingToken id fencingToken) P.shared).2) :=
            Prod.ext (eq_of_heq hreply).symm rfl
          obtain ⟨htoken, hworld⟩ := Fault.apply_eq_ok hexec
          refine .inr ⟨heq.symm, fencingToken, rfl, htoken, ?_⟩
          rw [hworld, World.setFencingToken_fencingTokens, if_pos rfl, htoken]
        · exact .inl ⟨fencingToken, htail⟩
      · rw [Pool.logOf_cons_ne heq] at hreplied
        exact .inl ⟨fencingToken, hreplied⟩
    by_cases hup : ∃ fencingToken, call = .insertFencingToken id fencingToken ∧
        (call.exec env P.shared).2.fencingTokens id =
          some (upsertFencingToken (P.shared.fencingTokens id) fencingToken)
    · obtain ⟨fencingToken, rfl, hafter⟩ := hup
      refine .inr ⟨pid, choice, env, p, fencingToken, next, rfl, hp, hrest, hafter, ?_⟩
      intro pid' token h
      rcases htold pid' token h with hold | ⟨hpid, fencingToken', hcall, htoken, -⟩
      · exact .inl hold
      · injection hcall with _ hsame
        exact .inr ⟨hpid, by rw [htoken, hsame]⟩
    · left
      constructor
      · rcases StorageCall.exec_fencingTokens env call P.shared id with hsame | hgone | hinsert
        · exact .inl hsame
        · exact .inr hgone
        · exact absurd hinsert hup
      · intro pid' token h
        rcases htold pid' token h with hold | ⟨-, fencingToken, hcall, htoken, hafter⟩
        · exact hold
        · exact absurd ⟨fencingToken, hcall, htoken ▸ hafter⟩ hup
  · exact .inl ⟨.inl rfl, fun _ _ h => h⟩
  · exact .inl ⟨.inl (by rw [(World.Drifts.of_apply hd).fencingTokens]), fun _ _ h => h⟩

/-- What a call was told stays told. -/
theorem Handlers.Told.step {l : Pool.Label Request Env Drift}
    (hs : Pool.step (serverMachine evictable) P l = some P') {pid : Nat} {token : Int}
    (h : P.Told pid id token) : P'.Told pid id token := by
  obtain ⟨fencingToken, hreplied⟩ := h
  refine ⟨fencingToken, ?_⟩
  rcases Pool.step_cases hs with ⟨pid', tag, -, -, rfl⟩ |
    ⟨pid', choice, env, p, call, next, -, -, -, rfl⟩ |
    ⟨pid', choice, env, p, rest, held, -, -, -, rfl⟩ | ⟨d, w, -, -, rfl⟩
  · exact hreplied
  · rw [Pool.perform_trace]
    by_cases heq : pid' = pid
    · rw [Pool.logOf_cons_self heq]
      exact hreplied.cons _
    · rw [Pool.logOf_cons_ne heq]
      exact hreplied
  · exact hreplied
  · exact hreplied

/-! ## Runs -/

/-- What counting keeps. -/
structure Handlers.InOrder (id : String) (P : Handlers) : Prop where
  /-- The stored token is the greatest issued. -/
  greatest : ∀ stored, P.shared.fencingTokens id = some stored →
    ∀ token, P.Issued id token → token ≤ stored
  /-- No token is issued twice. -/
  once : ∀ pid pid' token, P.Told pid id token → P.Told pid' id token → pid = pid'

/-- A token counted up is greater than all before it. -/
theorem Handlers.InOrder.counted (h : P.InOrder id) {fencingToken : Int}
    (hkeeps : P.shared.fencingTokens id = none → ∀ token, ¬ P.Issued id token) {token : Int}
    (hissued : P.Issued id token) :
    token < upsertFencingToken (P.shared.fencingTokens id) fencingToken := by
  cases hrow : P.shared.fencingTokens id with
  | none => exact absurd hissued (hkeeps hrow token)
  | some stored =>
      have hle := h.greatest stored hrow token hissued
      show token < stored + 1
      omega

theorem inOrder_step (h : P.InOrder id) {l : Pool.Label Request Env Drift}
    (hkeeps : P.KeepsTokens id l) (hs : Pool.step (serverMachine evictable) P l = some P') :
    P'.InOrder id := by
  rcases tokens_step hs id with ⟨hrow, htold⟩ |
    ⟨pid, choice, env, p, fencingToken, next, rfl, hp, hrest, hrow, htold⟩
  · constructor
    · rintro stored hstored token ⟨pid, hpid⟩
      rcases hrow with hrow | hrow
      · exact h.greatest stored (hrow ▸ hstored) token ⟨pid, htold pid token hpid⟩
      · rw [hrow] at hstored
        contradiction
    · intro pid pid' token hpid hpid'
      exact h.once pid pid' token (htold pid token hpid) (htold pid' token hpid')
  · have hcounted : ∀ token, P.Issued id token →
        token < upsertFencingToken (P.shared.fencingTokens id) fencingToken :=
      fun token => h.counted (hkeeps p fencingToken next hp hrest)
    constructor
    · rintro stored hstored token ⟨pid', hpid'⟩
      rw [hrow, Option.some.injEq] at hstored
      rcases htold pid' token hpid' with hold | ⟨-, heq⟩
      · have hlt := hcounted token ⟨pid', hold⟩
        omega
      · omega
    · intro pid₁ pid₂ token h₁ h₂
      rcases htold pid₁ token h₁ with hold₁ | ⟨hpid₁, heq₁⟩
      · rcases htold pid₂ token h₂ with hold₂ | ⟨-, heq₂⟩
        · exact h.once pid₁ pid₂ token hold₁ hold₂
        · have hlt := hcounted token ⟨pid₁, hold₁⟩
          omega
      · rcases htold pid₂ token h₂ with hold₂ | ⟨hpid₂, -⟩
        · have hlt := hcounted token ⟨pid₂, hold₂⟩
          omega
        · rw [hpid₁, hpid₂]

/-- **Counting runs keep the tokens in order.** -/
theorem Handlers.Counting.inOrder (hr : P.Counting evictable id) : P.InOrder id := by
  refine hr.invariant (Handlers.InOrder id) ?_ ?_
  · rintro _ ⟨w, rfl⟩
    have hnobody : ∀ pid token, ¬ Handlers.Told (Pool.start w) pid id token := by
      rintro pid token ⟨fencingToken, hreplied⟩
      contradiction
    constructor
    · rintro stored - token ⟨pid, hpid⟩
      exact absurd hpid (hnobody pid token)
    · intro pid pid' token hpid
      exact absurd hpid (hnobody pid token)
  · intro P l P' h hkeeps hs
    exact inOrder_step h hkeeps hs

/-- Once a token was issued, a call that arrives later is told a greater one,
and reads none below it. -/
theorem Handlers.CountsTo.later (hc : P₁.Counting evictable id)
    (h : P₁.CountsTo evictable id P₂) {token : Int} (hissued : P₁.Issued id token) {pid : Nat}
    (hlater : P₁.procs pid = none) :
    (∀ token', P₂.Told pid id token' → token < token') ∧
      ∀ found : Int, Replied (Pool.logOf pid P₂.trace) (.selectFencingToken id)
        (Except.ok (some found)) → token ≤ found := by
  have hinv := Reachable.invariant (fun Q : Handlers => Q.InOrder id ∧ Q.Issued id token ∧
    (∀ token', Q.Told pid id token' → token < token') ∧
      ∀ found : Int, Replied (Pool.logOf pid Q.trace) (.selectFencingToken id)
        (Except.ok (some found)) → token ≤ found) h ?_ ?_
  · exact hinv.2.2
  · rintro _ rfl
    refine ⟨hc.inOrder, hissued, fun token' h' => absurd hlater (h'.arrived hc.reached), ?_⟩
    intro found hfound
    rw [hc.reached.sound.logOf_eq_nil hlater] at hfound
    contradiction
  · rintro Q l Q' ⟨horder, ⟨pid₀, hpid₀⟩, htold, hread⟩ hkeeps hs
    refine ⟨inOrder_step horder hkeeps hs, ⟨pid₀, hpid₀.step hs⟩, fun token' h' => ?_,
      fun found hfound => ?_⟩
    · rcases tokens_step hs id with ⟨-, hsame⟩ |
        ⟨pid', choice, env, p, fencingToken, next, rfl, hp, hrest, -, hnew⟩
      · exact htold token' (hsame pid token' h')
      · rcases hnew pid token' h' with hold | ⟨-, heq⟩
        · exact htold token' hold
        · rw [heq]
          exact horder.counted (hkeeps p fencingToken next hp hrest) ⟨pid₀, hpid₀⟩
    · rcases replied_step hs hfound with hold | ⟨env, hexec⟩
      · exact hread found hold
      · obtain ⟨hrow, -⟩ := Fault.apply_eq_ok hexec
        exact horder.greatest found hrow.symm token ⟨pid₀, hpid₀⟩

/-! ## The "unexpected state" -/

/-- The last branch of `handle_lease_checkpoint`. -/
def unexpectedState : HandlerError := .io .Other "unexpected state"

/-- The handler gives up on the state only with a stored token below its own. -/
def LeaseCheckpointInput.Unexpected {α : Type} (data : LeaseCheckpointInput) (log : CallLog)
    (result : Except HandlerError α) : Prop :=
  result = .error unexpectedState → ∃ stored, Replied log (.selectFencingToken data.workflowId)
    (Except.ok (some stored)) ∧ stored < data.fencingToken

/-- Every other outcome is fine. -/
theorem LeaseCheckpointInput.unexpected_of_ne {data : LeaseCheckpointInput}
    {log : CallLog} {α : Type} {result : Except HandlerError α}
    (h : result ≠ .error unexpectedState) :
    data.Unexpected log result := fun heq => absurd heq h

section Unexpected

variable (data : LeaseCheckpointInput) {log : CallLog}

/-- Errors of the storage are passed on as such. -/
theorem mapError_ne_unexpectedState {α : Type} (r : Except HiqliteError α) :
    r.mapError HandlerError.hiqlite ≠ .error unexpectedState := by
  cases r with
  | ok a => exact fun h => by cases h
  | error e => exact fun h => by cases h

theorem obeys_grantLease_unexpected {token : Option Int}
    (htoken : Replied log (.selectFencingToken data.workflowId) (Except.ok token)) :
    (grantLease data token).Obeys (fun _ _ => True) data.Unexpected log := by
  rw [grantLease]
  simp only [Handler.obeys_bind, obeys_returnErrorIfTrue, Handler.Then]
  cases token with
  | none => exact data.unexpected_of_ne (fun h => by cases h)
  | some stored =>
      simp only [Option.isNone_some, Bool.false_eq_true, if_false, Option.getD_some]
      split
      · exact data.unexpected_of_ne (fun h => by cases h)
      · next hgreater =>
          rw [decide_eq_true_eq] at hgreater
          split
          · rw [Handler.obeys_bind, obeys_leaseCheckpoint]
            refine ⟨trivial, fun now => ⟨trivial, fun r => ?_⟩⟩
            cases r with
            | error e => exact data.unexpected_of_ne (fun h => by cases h)
            | ok _ => exact data.unexpected_of_ne (fun h => by cases h)
          · next hne =>
              intro _
              have hlt : stored < data.fencingToken := by omega
              exact ⟨stored, htoken, hlt⟩

theorem obeys_leaseWithoutRow_unexpected :
    (leaseWithoutRow data).Obeys (fun _ _ => True) data.Unexpected log := by
  rw [leaseWithoutRow]
  simp only [Handler.obeys_bind, Handler.obeys_lock, Handler.obeys_dropGuard, Handler.Then]
  refine ⟨?_, data.unexpected_of_ne fun h => by cases h⟩
  refine Handler.obeys_join (fun _ _ _ _ _ => trivial)
    (A := fun _ r => r ≠ .error unexpectedState)
    (B := fun log r => r ≠ .error unexpectedState ∧ ∀ token, r = .ok token →
      Replied log (.selectFencingToken data.workflowId) (Except.ok token))
    (fun _ _ _ _ h => h)
      (fun _ _ _ hl h => ⟨h.1, fun token hr => (h.2 token hr).mono hl⟩) ?_ ?_ ?_
  · rw [obeys_getLeasedCheckpoint]
    exact ⟨trivial, fun r => mapError_ne_unexpectedState r⟩
  · rw [obeys_getWorkflowFencingToken]
    refine ⟨trivial, fun r => ⟨mapError_ne_unexpectedState r, fun token hr => ?_⟩⟩
    cases r with
    | error e => cases hr
    | ok token' => cases hr; exact replied_self
  · intro log' leasedResult tokenResult hl hleased htoken
    simp only [Handler.Then, Handler.obeys_bind, Handler.obeys_ofResult]
    cases leasedResult with
    | error e =>
        refine data.unexpected_of_ne fun h => ?_
        cases h
        exact hleased rfl
    | ok found =>
        cases tokenResult with
        | error e =>
            refine data.unexpected_of_ne fun h => ?_
            cases h
            exact htoken.1 rfl
        | ok token =>
            have hread := htoken.2 token rfl
            cases found with
            | none => exact obeys_grantLease_unexpected data hread
            | some leased =>
                simp only [Handler.Then, Handler.obeys_bind, obeys_diffLeaseExpiryFromNow]
                refine ⟨trivial, fun now => ?_⟩
                split
                · exact data.unexpected_of_ne (fun h => by cases h)
                · exact obeys_grantLease_unexpected data (hread.cons _)

/-- **The handler gives up on the state only with a stored token below its
own.** -/
theorem Request.obeys_unexpected :
    (Request.leaseCheckpoint data).handler.Obeys (fun _ _ => True) data.Unexpected [] := by
  have hhandler : (handleLeaseCheckpoint data).Obeys (fun _ _ => True) data.Unexpected [] := by
    rw [handleLeaseCheckpoint_eq, Handler.obeys_bind, obeys_getCheckpoint]
    refine ⟨trivial, ?_⟩
    rintro (e | _ | row)
    · exact data.unexpected_of_ne (fun h => by cases h)
    · exact obeys_leaseWithoutRow_unexpected data
    · simp only [Except.mapError, Handler.Then, answerFromRow, Handler.obeys_bind,
        obeys_returnErrorIfTrue]
      split
      · exact data.unexpected_of_ne (fun h => by cases h)
      · split
        · exact data.unexpected_of_ne (fun h => by cases h)
        · exact data.unexpected_of_ne (fun h => by cases h)
  rw [Request.handler, obeys_wrap]
  refine Program.Obeys.imp (fun log' r _ h => ?_) hhandler
  cases r with
  | ok output => exact data.unexpected_of_ne (fun h => by cases h)
  | error e =>
      intro heq
      cases heq
      exact h rfl

end Unexpected

/-! ## The law of tokens -/

/-- **Tokens are never reused and never go back** in a run that never starts
over: no two calls return the same token, a call that arrives after one has
returned returns a greater token, the stored token is the greatest issued, and
no lease request with a token issued before it arrived meets the unexpected
state. -/
theorem tokens_never_reused (hc : P₁.Counting evictable id) (h : P₁.CountsTo evictable id P₂) :
    (∀ pid pid' token, P₂.Returned pid id token → P₂.Returned pid' id token → pid = pid') ∧
      (∀ pid pid' token token', P₁.Returned pid id token → P₁.procs pid' = none →
        P₂.Returned pid' id token' → token < token') ∧
      (∀ stored, P₂.shared.fencingTokens id = some stored →
        ∀ token, P₂.Issued id token → token ≤ stored) ∧
      ∀ pid q data, P₁.procs pid = none → P₂.procs pid = some q →
        q.tag = .leaseCheckpoint data →
        data.workflowId = id → P₁.Issued id data.fencingToken →
        answer q ≠ some (.error unexpectedState) := by
  have hc₂ : P₂.Counting evictable id := hc.trans h
  refine ⟨fun pid pid' token hp hp' => ?_, fun pid pid' token token' hp hlater hp' => ?_,
    hc₂.inOrder.greatest, fun pid q data hlater hq htag hid hissued hunexpected => ?_⟩
  · exact hc₂.inOrder.once pid pid' token (hp.told hc₂.reached) (hp'.told hc₂.reached)
  · exact (h.later hc ⟨pid, hp.told hc.reached⟩ hlater).1 token' (hp'.told hc₂.reached)
  · have hobeys : q.tag.handler.Obeys (fun _ _ => True) data.Unexpected [] := by
      rw [htag]
      exact Request.obeys_unexpected data
    have hends := hc₂.reached.sound.obeys hq hobeys
    rw [answer_eq_some.mp hunexpected] at hends
    obtain ⟨stored, hreplied, hlt⟩ := hends rfl
    rw [hid] at hreplied
    have hle := (h.later hc hissued hlater).2 stored hreplied
    omega

/-- **Starting over breaks it**: an upsert that succeeds where no token is
stored, after another call was told one, issues a token again or leaves one
below it. -/
theorem not_inOrder_of_restart {pid pid₀ : Nat} {choice : Bool} {env : Env} {token : Int}
    {p : Process StorageCall StorageCall.Reply String (Except HandlerError Response) Request}
    {next : (StorageCall.insertFencingToken id 1).Reply →
      Program StorageCall StorageCall.Reply String (Except HandlerError Response)}
    (hp : P.procs pid = some p) (hrest : p.rest = .call (.insertFencingToken id 1) next)
    (hrow : P.shared.fencingTokens id = none) (htold : P.Told pid₀ id token)
    (hother : pid₀ ≠ pid) (hpos : 0 < token) (hf : env.fault = .none)
    (hs : Pool.step (serverMachine evictable) P (.advance pid choice env) = some P') :
    ¬ P'.InOrder id := by
  intro h
  have htold' : P'.Told pid₀ id token := htold.step hs
  simp only [Pool.step, Pool.advance, hp, hrest, Option.some.injEq] at hs
  have hexec : StorageCall.exec env (.insertFencingToken id 1) P.shared =
      (Except.ok 1, P.shared.setFencingToken id 1) := by
    simp only [StorageCall.exec, hrow, hf]
    rfl
  have hstored : P'.shared.fencingTokens id = some 1 := by
    rw [← hs]
    simp only [serverMachine, Pool.perform, hexec, World.setFencingToken_fencingTokens, if_true]
  have hnew : P'.Told pid id 1 := by
    have hlog : Pool.logOf pid P'.trace =
        ⟨.insertFencingToken id 1,
          (StorageCall.exec env (.insertFencingToken id 1) P.shared).1⟩ ::
          Pool.logOf pid P.trace := by
      rw [← hs]
      exact Pool.logOf_cons_self rfl
    refine ⟨1, ?_⟩
    rw [hlog, hexec]
    exact replied_self
  have hle := h.greatest 1 hstored token ⟨pid₀, htold'⟩
  have heq : token = 1 := by omega
  exact hother (h.once pid₀ pid 1 (heq ▸ htold') hnew)

/-- Where no token is stored, none was issued. -/
def Handlers.Fresh (id : String) (P : Handlers) : Prop :=
  P.shared.fencingTokens id = none → ∀ token, ¬ P.Issued id token

/-- A run that deletes no token of the workflow never starts over. -/
theorem countsTo_of_within (hfresh : P.Fresh id) (h : P.Within evictable id P') :
    P.CountsTo evictable id P' ∧ P'.Fresh id := by
  refine Reachable.invariant (fun Q : Handlers => P.CountsTo evictable id Q ∧
    Q.Fresh id) h ?_ ?_
  · rintro _ rfl
    exact ⟨.start rfl, hfresh⟩
  · rintro Q l Q' ⟨hcounts, hfresh⟩ hspares hs
    have hkeeps : Q.KeepsTokens id l := by
      cases l with
      | advance pid choice env => exact fun _ _ _ _ _ hrow => hfresh hrow
      | arrive pid tag => trivial
      | drift d => trivial
    refine ⟨hcounts.step hkeeps hs, fun hrow => ?_⟩
    rcases tokens_step hs id with ⟨-, htold⟩ | ⟨pid, choice, env, p, n, next, -, -, -, hrow', -⟩
    · cases hold : Q.shared.fencingTokens id with
      | none => exact fun token hissued =>
          hfresh hold token ⟨_, htold _ token hissued.choose_spec⟩
      | some stored =>
          obtain ⟨stored', hstored', -⟩ :=
            tokenAtLeast_step hs hspares ⟨stored, hold, le_refl stored⟩
          rw [hrow] at hstored'
          contradiction
    · rw [hrow] at hrow'
      contradiction

/-- Two starts, one after the other, and a lease request of the first worker. -/
theorem second_start_greater :
    ∃ P₁ P₂ : Handlers, runLabels (arrives 0 payStart 5) = some P₁ ∧
      runLabels twoStarts = some P₂ ∧
      P₁.Returned 0 "pay" 1 ∧ P₂.Returned 1 "pay" 2 ∧
      ∀ token, P₂.Returned 1 "pay" token → 1 < token := by
  obtain ⟨P₁, h₁⟩ : ∃ P, runLabels (arrives 0 payStart 5) = some P :=
    Option.isSome_iff_exists.mp rfl
  obtain ⟨P₂, h₂⟩ : ∃ P, runLabels twoStarts = some P := Option.isSome_iff_exists.mp rfl
  have hr : Handlers.Reached leaseExpired (Pool.start (World.empty 0)) := .start ⟨_, rfl⟩
  have hnone : Handlers.NoCleanUp (Pool.start (World.empty 0)) := fun pid p hp => by
    simp [Pool.start] at hp
  have hfresh : Handlers.Fresh "pay" (Pool.start (World.empty 0)) := by
    rintro - token ⟨pid, fencingToken, hreplied⟩
    contradiction
  have hstart : ∀ n pid, Pool.Label.arrive pid Request.cleanUp ∉ arrives n payStart 5 := by
    simp [arrives, payStart]
  obtain ⟨hspan, hnone₁⟩ := within_of_exec hr hnone (hstart 0) h₁ "pay"
  obtain ⟨hspan', -⟩ := within_of_exec (hspan.reached hr) hnone₁ (hstart 1)
    (runLabels_append h₁ h₂) "pay"
  obtain ⟨hcounts, hfresh₁⟩ := countsTo_of_within hfresh hspan
  obtain ⟨hcounts', -⟩ := countsTo_of_within hfresh₁ hspan'
  have hc : P₁.Counting leaseExpired "pay" := Reachable.trans (.start ⟨_, rfl⟩) hcounts
  have hreturned : P₁.Returned 0 "pay" 1 :=
    eq_of_runLabels h₁ (fun P => (P.procs 0).bind started) rfl
  have hreturned' : P₂.Returned 1 "pay" 2 :=
    eq_of_runLabels h₂ (fun P => (P.procs 1).bind started) rfl
  have hlater : P₁.procs 1 = none := Option.isNone_iff_eq_none.mp
    (eq_of_runLabels h₁ (fun P => (P.procs 1).isNone) rfl)
  refine ⟨P₁, P₂, h₁, h₂, hreturned, hreturned', fun token htoken => ?_⟩
  exact (tokens_never_reused hc hcounts').2.1 0 1 1 token hreturned hlater htoken

/-! ## Starting over -/

/-- Two workers start, the second one completes the workflow, it is cleaned up,
and started again; then the second worker asks for the lease. -/
def startedAfresh : List (Pool.Label Request Env Drift) :=
  twoStarts ++
    arrives 2
      (.completeWorkflow { workflowId := "pay", fencingToken := 2, expireAfter := 0 }) 4 ++
    [.drift (.tick 1)] ++ arrives 3 .cleanUp 6 ++ arrives 4 payStart 5 ++
      arrives 5 (payLease 2) 6

/-- Token 1 is issued twice, the second time after token 2, and the worker with
token 2 meets the unexpected state. -/
theorem token_reissued_after_cleanup :
    ∃ P : Handlers, runLabels startedAfresh = some P ∧ P.Returned 0 "pay" 1 ∧
      P.Returned 1 "pay" 2 ∧ P.Returned 4 "pay" 1 ∧ P.shared.fencingTokens "pay" = some 1 ∧
      (P.procs 5).map (fun q => (q.tag, answer q)) =
        some (payLease 2, some (.error unexpectedState)) := by
  obtain ⟨P, h⟩ : ∃ P, runLabels startedAfresh = some P :=
    Option.isSome_iff_exists.mp (by decide +kernel)
  refine ⟨P, h, ?_, ?_, ?_, ?_, ?_⟩
  · exact eq_of_runLabels h (fun P => (P.procs 0).bind started) (by decide +kernel)
  · exact eq_of_runLabels h (fun P => (P.procs 1).bind started) (by decide +kernel)
  · exact eq_of_runLabels h (fun P => (P.procs 4).bind started) (by decide +kernel)
  · exact eq_of_runLabels h (fun P => P.shared.fencingTokens "pay") (by decide +kernel)
  · exact eq_of_runLabels h (fun P => (P.procs 5).map fun q => (q.tag, answer q))
      (a := some (payLease 2, some (.error unexpectedState))) (by decide +kernel)

end IdempotentTransformer
