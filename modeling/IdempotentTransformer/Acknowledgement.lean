import IdempotentTransformer.Interleaving

/-!
# IdempotentTransformer.Acknowledgement

What an answered start and an answered completion say, and when it is true.

`create_workflow` joins two independent inserts and answers from the token
alone; the result of the row's insert is dropped.  `finish_workflow` updates by
id whatever row there is, and the number of rows it changed is never read.
So a start may acknowledge a workflow that has no row, and a completion one
that is not there.

* `start_true_iff` — a start says the truth unless its insert of the row was
  refused and nobody else has stored one;
* `finish_true_iff` — a completion says the truth unless it finds no row;
* `answer_true_iff` — both, over every run.
-/

namespace IdempotentTransformer

open Library Program

variable {evictable : CachedLease → Int → Bool} {P P' : Handlers}

/-! ## What an answer says -/

/-- The call inserts the workflow's row, and what it leaves is that row. -/
def WritesWorkflow (id : String) (e : StorageEvent) : Prop :=
  ∃ status createdAt name, e.op = .insertWorkflow id status createdAt name ∧
    e.after.workflows id =
      some (upsertWorkflow (e.before.workflows id) id status createdAt name)

/-- The call inserts the workflow's row, and is not one that failed without an
effect. -/
def InsertsUnrefused (id : String) (e : StorageEvent) : Prop :=
  ∃ status createdAt name, e.op = .insertWorkflow id status createdAt name ∧
    ∃ env : Env, env.fault ≠ .refused ∧ e.op.exec env e.before = (e.reply, e.after)

/-- What `Ok(t)` of `create_workflow` says: a row was written or is there, and
`t` was written as the token. -/
def Handlers.Started (P : Handlers) (pid : Nat) (data : CreateWorkflowInput)
    (output : CreateWorkflowOutput) : Prop :=
  ((∃ e ∈ P.trace, e.pid = pid ∧ WritesWorkflow data.workflowId e) ∨
      P.shared.workflows data.workflowId ≠ none) ∧
    ∃ e ∈ P.trace, e.pid = pid ∧ e.op = .insertFencingToken data.workflowId 1 ∧
      e.after.fencingTokens data.workflowId = some output.fencingToken

/-- The `expire_at` a completion has computed: from the first of the two clock
readings before its update. -/
def ComputedExpireAt (data : FinishWorkflowInput) (log : CallLog) (expireAt : Int) : Prop :=
  ∃ (now completedAt : Int) (earlier : CallLog),
    log = ⟨.updateWorkflow expireAt WorkflowStatus.Completed.toInt completedAt data.workflowId,
      (Except.ok () : Except HiqliteError Unit)⟩ :: ⟨.utcNow, completedAt⟩ :: ⟨.utcNow, now⟩ ::
        earlier ∧
      expireAt = wrappingAdd now data.expireAfter

/-- What `Ok` of `finish_workflow` says. -/
def Handlers.Finished (P : Handlers) (pid : Nat) (data : FinishWorkflowInput) : Prop :=
  ∃ row expireAt, P.shared.workflows data.workflowId = some row ∧
    row.status = WorkflowStatus.Completed.toInt ∧ row.expireAt = some expireAt ∧
      ComputedExpireAt data (Pool.logOf pid P.trace) expireAt

/-- A step of a run by which a handler answers. -/
structure Handlers.Answering (evictable : CachedLease → Int → Bool)
    (P P' : Handlers) (pid : Nat) (request : Request)
    (result : Except HandlerError Response) : Prop where
  reached : P.Reached evictable
  step : ∃ l, Pool.step (serverMachine evictable) P l = some P'
  before : ∃ p, P.procs pid = some p ∧ p.tag = request ∧ answer p = none
  after : ∃ q, P'.procs pid = some q ∧ answer q = some result

/-- What an answer says is true; an error says nothing. -/
def Handlers.AnswerTrue (P : Handlers) (pid : Nat) : Request →
    Except HandlerError Response → Prop
  | .workflowStart data, .ok (.workflowStart output) => P.Started pid data output
  | .completeWorkflow data, .ok _ => P.Finished pid data
  | _, _ => True

/-- The storage a start or a completion answers from: the insert of the
row was not refused or a row is there, and the update finds a row.  `before`
is the table the answering step finds. -/
def Handlers.Backed (P : Handlers) (before : World) (pid : Nat) :
    Request → Except HandlerError Response → Prop
  | .workflowStart data, .ok (.workflowStart _) =>
      (∃ e ∈ P.trace, e.pid = pid ∧ InsertsUnrefused data.workflowId e) ∨
        P.shared.workflows data.workflowId ≠ none
  | .completeWorkflow data, .ok _ => before.workflows data.workflowId ≠ none
  | _, _ => True

/-! ## Starting -/

/-- **An insert that was not refused is one that left its row.** -/
theorem writesWorkflow_iff (hr : P.Reached evictable) {e : StorageEvent} (he : e ∈ P.trace)
    (id : String) : WritesWorkflow id e ↔ InsertsUnrefused id e := by
  obtain ⟨env, henv⟩ := hr.sound.executed e he
  obtain ⟨pid, tag, op, reply, before, after⟩ := e
  constructor
  · rintro ⟨status, createdAt, name, rfl, hafter⟩
    refine ⟨status, createdAt, name, rfl, ?_⟩
    by_cases hfault : env.fault = .refused
    · -- A refused insert that leaves the row it would have written: an
      -- unacknowledged one does the same.
      refine ⟨{ env with fault := .unacknowledged }, by simp, ?_⟩
      have hsame : (StorageCall.insertWorkflow id status createdAt name).exec env before =
          (reply, after) := henv
      simp only [StorageCall.exec, hfault, Fault.apply] at hsame
      obtain ⟨rfl, rfl⟩ := hsame
      have hset : before.setWorkflow id
          (upsertWorkflow (before.workflows id) id status createdAt name) = before := by
        rw [World.setWorkflow, ← show before.workflows id = _ from hafter,
          Function.update_eq_self]
      exact congrArg (Prod.mk _) hset
    · exact ⟨env, hfault, henv⟩
  · rintro ⟨status, createdAt, name, rfl, env', hfault, hexec⟩
    refine ⟨status, createdAt, name, rfl, ?_⟩
    have hdone : (StorageCall.insertWorkflow id status createdAt name).exec env' before =
        (reply, after) := hexec
    cases hf : env'.fault with
    | refused => exact absurd hf hfault
    | none =>
        simp only [StorageCall.exec, hf, Fault.apply] at hdone
        obtain ⟨-, rfl⟩ := hdone
        simp [World.setWorkflow]
    | unacknowledged =>
        simp only [StorageCall.exec, hf, Fault.apply] at hdone
        obtain ⟨-, rfl⟩ := hdone
        simp [World.setWorkflow]

/-- The token a start answers with was written as the workflow's. -/
theorem started_token (hr : P.Reached evictable) {pid : Nat}
    {q : Process StorageCall StorageCall.Reply String (Except HandlerError Response) Request}
    {data : CreateWorkflowInput} {output : CreateWorkflowOutput} (hq : P.procs pid = some q)
    (htag : q.tag = .workflowStart data)
    (hans : answer q = some (.ok (.workflowStart output))) :
    ∃ e ∈ P.trace, e.pid = pid ∧ e.op = .insertFencingToken data.workflowId 1 ∧
      e.after.fencingTokens data.workflowId = some output.fencingToken := by
  have hanswers := hr.sound.obeys hq (Request.obeys q.tag)
  rw [answer_eq_some.mp hans, htag] at hanswers
  obtain ⟨data', hdata, htoken⟩ := hanswers
  cases hdata
  obtain ⟨later, e, earlier, env, hsplit, hpid, hop, hexec⟩ :=
    hr.sound.exists_of_mem_logOf (List.Subset.refl _) htoken
  obtain ⟨hreply, hafter⟩ := Fault.apply_eq_ok hexec
  refine ⟨e, by rw [hsplit]; simp, hpid, hop, ?_⟩
  rw [hafter, World.setFencingToken_fencingTokens, if_pos rfl, hreply]

/-- **A start says the truth unless its insert was refused and no row is
there.** -/
theorem start_true_iff (hr : P.Reached evictable) {pid : Nat}
    {q : Process StorageCall StorageCall.Reply String (Except HandlerError Response) Request}
    {data : CreateWorkflowInput} {output : CreateWorkflowOutput} (hq : P.procs pid = some q)
    (htag : q.tag = .workflowStart data)
    (hans : answer q = some (.ok (.workflowStart output))) :
    P.Started pid data output ↔
      (∃ e ∈ P.trace, e.pid = pid ∧ InsertsUnrefused data.workflowId e) ∨
        P.shared.workflows data.workflowId ≠ none := by
  have hevents : (∃ e ∈ P.trace, e.pid = pid ∧ WritesWorkflow data.workflowId e) ↔
      ∃ e ∈ P.trace, e.pid = pid ∧ InsertsUnrefused data.workflowId e :=
    exists_congr fun e => and_congr_right fun he =>
      and_congr_right fun _ => writesWorkflow_iff hr he data.workflowId
  rw [Handlers.Started, hevents]
  exact and_iff_left (started_token hr hq htag hans)

/-! ## Completing -/

section Direct

variable {α β : Type}

theorem Handler.direct_bind {m : Handler α} {f : α → Handler β} (hm : m.program.Direct)
    (hf : ∀ a, (f a).program.Direct) : (m >>= f).program.Direct :=
  hm.bind fun
    | .ok a => hf a
    | .error _ => trivial

theorem direct_returnErrorIfTrue (condition : Bool) (status : HandlerError) :
    (returnErrorIfTrue condition status).program.Direct := by
  cases condition <;> exact trivial

end Direct

/-- A completion makes calls and nothing else. -/
theorem direct_completeWorkflow (data : FinishWorkflowInput) :
    (Request.completeWorkflow data).handler.program.Direct := by
  refine Handler.direct_bind ?_ fun _ => trivial
  refine Handler.direct_bind (fun _ => trivial) fun token => ?_
  refine Handler.direct_bind (direct_returnErrorIfTrue _ _) fun _ => ?_
  refine Handler.direct_bind (direct_returnErrorIfTrue _ _) fun _ => ?_
  refine Handler.direct_bind (fun _ => trivial) fun now => ?_
  exact Handler.direct_bind (fun _ => trivial) fun completedAt _ => trivial

/-- A completion that succeeds has just updated the row, after two readings of
the clock. -/
theorem obeys_computedExpireAt (data : FinishWorkflowInput) :
    (Request.completeWorkflow data).handler.Obeys (fun _ _ => True)
      (fun log result => ∀ response, result = .ok response →
        ∃ expireAt, ComputedExpireAt data log expireAt) [] := by
  rw [Request.handler, obeys_wrap, finishWorkflow]
  simp only [Handler.obeys_bind, obeys_getWorkflowFencingToken]
  refine ⟨trivial, ?_⟩
  rintro (e | token)
  · exact fun _ h => by cases h
  · simp only [Except.mapError, Handler.Then, Handler.obeys_bind, obeys_returnErrorIfTrue,
      obeys_utcNow]
    split
    · exact fun _ h => by cases h
    · split
      · exact fun _ h => by cases h
      · refine ⟨trivial, fun now => ⟨trivial, fun completedAt => ⟨trivial, ?_⟩⟩⟩
        rintro (e | _) response h
        · cases h
        · exact ⟨_, now, completedAt, _, rfl, rfl⟩

/-- A handler of nothing but calls answers as its last call returns. -/
theorem last_call (hr : P.Reached evictable) {l : Pool.Label Request Env Drift}
    (hs : Pool.step (serverMachine evictable) P l = some P') {pid : Nat}
    {p q : Process StorageCall StorageCall.Reply String (Except HandlerError Response) Request}
    (hp : P.procs pid = some p) (hnot : answer p = none) (hq : P'.procs pid = some q)
    {result : Except HandlerError Response} (hans : answer q = some result)
    (hdirect : p.tag.handler.program.Direct) :
    q.tag = p.tag ∧ ∃ call env, P'.shared = (StorageCall.exec env call P.shared).2 ∧
      Pool.logOf pid P'.trace =
        ⟨call, (StorageCall.exec env call P.shared).1⟩ :: Pool.logOf pid P.trace := by
  have hmoved : P.procs pid ≠ some q := by
    intro hsame
    rw [hp, Option.some.injEq] at hsame
    rw [hsame, hans] at hnot
    cases hnot
  rcases Pool.step_cases hs with ⟨pid', request, -, hnone, rfl⟩ |
    ⟨pid', choice, env, p', call, next, -, hp', hrest, rfl⟩ |
    ⟨pid', choice, env, p', rest, held, -, hp', hsilent, rfl⟩ | ⟨d, w, -, -, rfl⟩
  · simp only [Pool.setProcess, Function.update_apply] at hq
    split at hq
    · next heq =>
        rw [heq, hnone] at hp
        cases hp
    · exact absurd hq hmoved
  · simp only [Pool.perform, Pool.setProcess, Function.update_apply] at hq
    split at hq
    · next heq =>
        subst heq
        rw [hp, Option.some.injEq] at hp'
        subst hp'
        cases hq
        exact ⟨rfl, call, env, rfl, Pool.logOf_cons_self rfl⟩
    · exact absurd hq hmoved
  · simp only [Pool.setProcess, Function.update_apply] at hq
    split at hq
    · next heq =>
        subst heq
        rw [hp, Option.some.injEq] at hp'
        subst hp'
        exact absurd hsilent ((hr.sound.trail pid p hp).direct hdirect).not_silent
    · exact absurd hq hmoved
  · exact absurd hq hmoved

/-- **A completion that succeeds has updated the row it found**, and nothing
since. -/
theorem finish_updates (hr : P.Reached evictable) {l : Pool.Label Request Env Drift}
    (hs : Pool.step (serverMachine evictable) P l = some P') {pid : Nat}
    {p q : Process StorageCall StorageCall.Reply String (Except HandlerError Response) Request}
    (hp : P.procs pid = some p) (hnot : answer p = none) (hq : P'.procs pid = some q)
    {data : FinishWorkflowInput} {response : Response} (htag : p.tag = .completeWorkflow data)
    (hans : answer q = some (.ok response)) :
    ∃ expireAt completedAt, ComputedExpireAt data (Pool.logOf pid P'.trace) expireAt ∧
      P'.shared = match P.shared.workflows data.workflowId with
        | some row => P.shared.setWorkflow data.workflowId
            { row with expireAt := some expireAt, status := WorkflowStatus.Completed.toInt,
                       completedAt := some completedAt }
        | none => P.shared := by
  have hr' : P'.Reached evictable := .step hr trivial hs
  obtain ⟨hqtag, call, env, hshared, hlast⟩ :=
    last_call hr hs hp hnot hq hans (htag ▸ direct_completeWorkflow data)
  have hcomputed := hr'.sound.obeys hq (hqtag ▸ htag ▸ obeys_computedExpireAt data)
  rw [answer_eq_some.mp hans] at hcomputed
  obtain ⟨expireAt, hcomputed⟩ := hcomputed response rfl
  obtain ⟨now, completedAt, earlier, hlog, -⟩ := id hcomputed
  -- The answering step is the update, and it was acknowledged.
  have hrecorded := (List.cons.inj (hlast.symm.trans hlog)).1
  have hafter := (Fault.apply_eq_ok (StorageCall.exec_of_eq hrecorded)).2
  rw [← hshared] at hafter
  exact ⟨expireAt, completedAt, hcomputed, hafter⟩

/-- **A completion says the truth unless its update finds no row.** -/
theorem finish_true_iff (hr : P.Reached evictable) {l : Pool.Label Request Env Drift}
    (hs : Pool.step (serverMachine evictable) P l = some P') {pid : Nat}
    {p q : Process StorageCall StorageCall.Reply String (Except HandlerError Response) Request}
    (hp : P.procs pid = some p) (hnot : answer p = none) (hq : P'.procs pid = some q)
    {data : FinishWorkflowInput} {response : Response} (htag : p.tag = .completeWorkflow data)
    (hans : answer q = some (.ok response)) :
    P'.Finished pid data ↔ P.shared.workflows data.workflowId ≠ none := by
  obtain ⟨expireAt, completedAt, hcomputed, hafter⟩ := finish_updates hr hs hp hnot hq htag hans
  constructor
  · rintro ⟨row, expireAt', hrow, -⟩ hnone
    rw [hafter, hnone] at hrow
    simp only [hnone] at hrow
    cases hrow
  · intro hrow
    obtain ⟨row, hrow⟩ := Option.ne_none_iff_exists'.mp hrow
    refine ⟨{ row with expireAt := some expireAt, status := WorkflowStatus.Completed.toInt,
                       completedAt := some completedAt }, expireAt, ?_, rfl, rfl, hcomputed⟩
    rw [hafter, hrow]
    simp [World.setWorkflow]

/-! ## Every answer -/

/-- A step leaves a process under its request. -/
theorem tag_kept {l : Pool.Label Request Env Drift}
    (hs : Pool.step (serverMachine evictable) P l = some P') {pid : Nat}
    {p q : Process StorageCall StorageCall.Reply String (Except HandlerError Response) Request}
    (hp : P.procs pid = some p) (hq : P'.procs pid = some q) : q.tag = p.tag := by
  rcases process_step hs hq with hsame | ⟨request, -, hnone, -⟩ | ⟨p', hp', htag, -⟩
  · rw [hp, Option.some.injEq] at hsame
    rw [hsame]
  · rw [hp] at hnone
    cases hnone
  · rw [hp, Option.some.injEq] at hp'
    rw [htag, hp']

/-- **What a start or a completion answers is true exactly when the storage
backs it.** -/
theorem answer_true_iff {pid : Nat} {request : Request} {result : Except HandlerError Response}
    (h : P.Answering evictable P' pid request result) :
    P'.AnswerTrue pid request result ↔ P'.Backed P.shared pid request result := by
  obtain ⟨hr, ⟨l, hs⟩, ⟨p, hp, htag, hnot⟩, ⟨q, hq, hans⟩⟩ := h
  have hr' : P'.Reached evictable := .step hr trivial hs
  cases request with
  | workflowStart data =>
      cases result with
      | error e => exact Iff.rfl
      | ok response =>
          have hqtag : q.tag = .workflowStart data := (tag_kept hs hp hq).trans htag
          cases response with
          | workflowStart output => exact start_true_iff hr' hq hqtag hans
          | _ => exact Iff.rfl
  | completeWorkflow data =>
      cases result with
      | error e => exact Iff.rfl
      | ok response => exact finish_true_iff hr hs hp hnot hq htag hans
  | _ => cases result <;> exact Iff.rfl

/-! ## Concrete runs -/

/-- One step of a run that answers. -/
theorem answering_of_exec {w : World} {ls : List (Pool.Label Request Env Drift)}
    {l : Pool.Label Request Env Drift} {pid : Nat} {request : Request}
    {result : Except HandlerError Response}
    (hP : exec (Pool.step (serverMachine evictable)) (Pool.start w) ls = some P)
    (hP' : exec (Pool.step (serverMachine evictable)) (Pool.start w) (ls ++ [l]) = some P')
    (hbefore : (P.procs pid).map (fun p => (p.tag, answer p)) = some (request, none))
    (hafter : (P'.procs pid).bind answer = some result) :
    P.Answering evictable P' pid request result := by
  have hlast := exec_of_append hP hP'
  rw [exec, Option.bind_eq_some_iff] at hlast
  obtain ⟨Q, hQ, hsame⟩ := hlast
  cases hsame
  obtain ⟨p, hp, hpair⟩ := Option.map_eq_some_iff.mp hbefore
  obtain ⟨htag, hnot⟩ := Prod.mk.inj hpair
  obtain ⟨q, hq, hans⟩ := Option.bind_eq_some_iff.mp hafter
  exact ⟨.of_exec (.start ⟨w, rfl⟩) hP, ⟨l, hQ⟩, ⟨p, hp, htag, hnot⟩, q, hq, hans⟩

/-- A worker completes the workflow. -/
def payComplete : Request := .completeWorkflow
  { workflowId := "pay", fencingToken := 1, expireAfter := 60000 }

/-- The storage refuses one call. -/
def refusedCall : Env := { fault := .refused, minted := "", leader := true }

/-- A start all whose calls succeed answers the truth. -/
theorem first_start_true :
    ∃ P P' : Handlers,
      P.Answering leaseExpired P' 0 payStart (.ok (.workflowStart { fencingToken := 1 })) ∧
        P'.AnswerTrue 0 payStart (.ok (.workflowStart { fencingToken := 1 })) := by
  obtain ⟨P, hP⟩ : ∃ P, runLabels (arrives 0 payStart 4) = some P :=
    Option.isSome_iff_exists.mp (by decide +kernel)
  obtain ⟨P', hP'⟩ : ∃ P', runLabels (arrives 0 payStart 4 ++ goesOn 0 1) = some P' :=
    Option.isSome_iff_exists.mp (by decide +kernel)
  have hanswering : P.Answering leaseExpired P' 0 payStart
      (.ok (.workflowStart { fencingToken := 1 })) := answering_of_exec hP hP'
    (eq_of_runLabels hP (fun P => (P.procs 0).map fun p => (p.tag, answer p))
      (by decide +kernel))
    (eq_of_runLabels hP' (fun P => (P.procs 0).bind answer) (by decide +kernel))
  refine ⟨P, P', hanswering, (answer_true_iff hanswering).mpr (.inr ?_)⟩
  have hrow : (P'.shared.workflows "pay").isSome = true :=
    eq_of_runLabels hP' (fun P => (P.shared.workflows "pay").isSome) (by decide +kernel)
  exact Option.isSome_iff_ne_none.mp hrow

/-- A start whose insert of the row is refused. -/
def rowlessStart : List (Pool.Label Request Env Drift) :=
  arrives 0 payStart 3 ++ [.advance 0 true refusedCall]

/-- **A workflow without a row is started and completed**: both calls
answer `Ok`, and no table has a row. -/
theorem rowless_acknowledged :
    (∃ P P' : Handlers,
      P.Answering leaseExpired P' 0 payStart (.ok (.workflowStart { fencingToken := 1 })) ∧
        ¬ P'.AnswerTrue 0 payStart (.ok (.workflowStart { fencingToken := 1 }))) ∧
    ∃ P P' : Handlers, P.Answering leaseExpired P' 1 payComplete (.ok .completeWorkflow) ∧
      ¬ P'.AnswerTrue 1 payComplete (.ok .completeWorkflow) := by
  constructor
  · obtain ⟨P, hP⟩ : ∃ P, runLabels rowlessStart = some P :=
      Option.isSome_iff_exists.mp (by decide +kernel)
    obtain ⟨P', hP'⟩ : ∃ P', runLabels (rowlessStart ++ goesOn 0 1) = some P' :=
      Option.isSome_iff_exists.mp (by decide +kernel)
    refine ⟨P, P', answering_of_exec hP hP'
      (eq_of_runLabels hP (fun P => (P.procs 0).map fun p => (p.tag, answer p))
        (by decide +kernel))
      (eq_of_runLabels hP' (fun P => (P.procs 0).bind answer) (by decide +kernel)), ?_⟩
    have hnone : (P'.shared.workflows "pay").isNone = true :=
      eq_of_runLabels hP' (fun P => (P.shared.workflows "pay").isNone) (by decide +kernel)
    have hnever : (P'.trace.all fun e => (e.after.workflows "pay").isNone) = true :=
      eq_of_runLabels hP' (fun P => P.trace.all fun e => (e.after.workflows "pay").isNone)
        (by decide +kernel)
    rintro ⟨⟨e, he, -, status, createdAt, name, -, hrow⟩ | hrow, -⟩
    · have hafter := Option.isNone_iff_eq_none.mp (List.all_eq_true.mp hnever e he)
      exact absurd (hafter.symm.trans hrow) (by simp)
    · exact hrow (Option.isNone_iff_eq_none.mp hnone)
  · obtain ⟨P, hP⟩ : ∃ P, runLabels
        (rowlessStart ++ goesOn 0 1 ++ arrives 1 payComplete 3) = some P :=
      Option.isSome_iff_exists.mp (by decide +kernel)
    obtain ⟨P', hP'⟩ : ∃ P', runLabels
        (rowlessStart ++ goesOn 0 1 ++ arrives 1 payComplete 3 ++ goesOn 1 1) = some P' :=
      Option.isSome_iff_exists.mp (by decide +kernel)
    refine ⟨P, P', answering_of_exec hP hP'
      (eq_of_runLabels hP (fun P => (P.procs 1).map fun p => (p.tag, answer p))
        (by decide +kernel))
      (eq_of_runLabels hP' (fun P => (P.procs 1).bind answer) (by decide +kernel)), ?_⟩
    have hnone : (P'.shared.workflows "pay").isNone = true :=
      eq_of_runLabels hP' (fun P => (P.shared.workflows "pay").isNone) (by decide +kernel)
    rintro ⟨row, expireAt, hrow, -⟩
    exact absurd ((Option.isNone_iff_eq_none.mp hnone).symm.trans hrow) (by simp)

end IdempotentTransformer
