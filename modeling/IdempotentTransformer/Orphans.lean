import IdempotentTransformer.Fencing
import IdempotentTransformer.Separation

/-!
# IdempotentTransformer.Orphans

Tokens and checkpoints of a workflow without a row in `Workflows`, in every
interleaving of storage calls that succeed.

Starting a workflow inserts the row and the token in either order, and
cleanup deletes the children first and the row last, each in a statement of
its own.  A child is left behind when the row goes while a child is stored or
still to be inserted; as long as that does not happen, every workflow that
has a child has its row once no request is on its way.
-/

namespace IdempotentTransformer

open Library Program

variable {evictable : CachedLease → Int → Bool} {P P' : Handlers} {id : String}

/-! ## Rows, children, and requests on their way -/

/-- A token or a checkpoint of the workflow is stored. -/
def World.HasChild (w : World) (id : String) : Prop :=
  w.fencingTokens id ≠ none ∨ ∃ position, w.checkpoints id position ≠ none

/-- The calls include the upsert of the workflow's row. -/
def WroteWorkflow (id : String) (log : CallLog) : Prop :=
  ∃ entry ∈ log, ∃ status createdAt name, entry.1 = .insertWorkflow id status createdAt name

/-- A request for the workflow on its way may still insert a child: it starts
the workflow, or it inserts a row under a token it has found. -/
def Handlers.Inserting (P : Handlers) (id : String) : Prop :=
  ∃ pid p, P.procs pid = some p ∧ answer p = none ∧ p.tag.workflowId? = some id ∧
    ((∃ data, p.tag = .workflowStart data) ∨
      p.tag.writesRow = true ∧ ∃ token : Int, Replied p.log (.selectFencingToken id)
        (Except.ok (some token)))

/-- A start of the workflow on its way is still to insert its row. -/
def Handlers.Registering (P : Handlers) (id : String) : Prop :=
  ∃ pid p data, P.procs pid = some p ∧ p.tag = .workflowStart data ∧ data.workflowId = id ∧
    ¬ WroteWorkflow id p.log

/-- No request is on its way. -/
def Handlers.Quiescent (P : Handlers) : Prop :=
  ∀ pid p, P.procs pid = some p → answer p ≠ none

/-- A call succeeds. -/
def Succeeds : Pool.Label Request Env Drift → Prop
  | .advance _ _ env => env.fault = .none
  | _ => True

instance (l : Pool.Label Request Env Drift) : Decidable (Succeeds l) :=
  match l with
  | .advance _ _ env => inferInstanceAs (Decidable (env.fault = .none))
  | .arrive .. => .isTrue trivial
  | .drift _ => .isTrue trivial

/-- The step does not delete the workflow's row while a child is stored or may
still be inserted, unless a start is still to insert the row again. -/
def Handlers.CollectsWhole (id : String) (P : Handlers) : Pool.Label Request Env Drift → Prop
  | .advance pid _ _ => ∀ p currentTimestamp status next, P.procs pid = some p →
      p.rest = .call (.deleteWorkflows currentTimestamp status) next →
      P.shared.expired currentTimestamp status id = true →
      (¬ P.shared.HasChild id ∧ ¬ P.Inserting id) ∨ P.Registering id
  | _ => True

/-- The runs whose calls all succeed, that collect the workflow as a whole,
from a stored world in which it has no child without its row. -/
def Handlers.Collecting (evictable : CachedLease → Int → Bool) (id : String)
    (P : Handlers) : Prop :=
  Reachable (Pool.step (serverMachine evictable)) (fun (P : Handlers) l => Succeeds l ∧
    P.CollectsWhole id l)
    (fun P => ∃ w : World, (w.HasChild id → w.workflows id ≠ none) ∧ P = Pool.start w) P

theorem Handlers.Collecting.reached (h : P.Collecting evictable id) : P.Reached evictable := by
  induction h with
  | start h =>
      obtain ⟨w, -, rfl⟩ := h
      exact .start ⟨w, rfl⟩
  | step _ _ hs ih => exact .step ih trivial hs

/-- Only cleanup deletes rows of `Workflows`. -/
theorem collectsWhole_of_noCleanUp (hr : P.Reached evictable) (hnone : P.NoCleanUp)
    (l : Pool.Label Request Env Drift) : P.CollectsWhole id l := by
  cases l with
  | arrive pid request => trivial
  | drift d => trivial
  | advance pid choice env =>
      intro p currentTimestamp status next hp hrest
      exact absurd (calls_of_rest hr hp hrest) (hnone pid p hp)

/-! ## What the handlers do -/

theorem wroteWorkflow_stable (id : String) :
    Stable (fun (log : CallLog) (_ : Except HandlerError Workflow) =>
      WroteWorkflow id log) := by
  intro log log' _ hl h
  obtain ⟨entry, hentry, hop⟩ := h
  exact ⟨entry, hl hentry, hop⟩

/-- A start that is over has inserted its row. -/
theorem obeys_wroteWorkflow (data : CreateWorkflowInput) :
    (Request.workflowStart data).handler.Obeys (fun _ _ => True)
      (fun log _ => WroteWorkflow data.workflowId log) [] := by
  rw [Request.handler, obeys_wrap, createWorkflow, Handler.obeys_bind]
  refine Handler.obeys_join (fun _ _ _ _ _ => trivial)
    (A := fun log _ => WroteWorkflow data.workflowId log) (B := fun _ _ => True)
    (wroteWorkflow_stable data.workflowId) (fun _ _ _ _ _ => trivial) ?_ ?_ ?_
  · refine ⟨trivial, fun now => ⟨trivial, fun r => ?_⟩⟩
    exact ⟨_, List.mem_cons_self, _, _, _, rfl⟩
  · exact ⟨trivial, fun _ => trivial⟩
  · intro log workflow tokenResult _ hwrote _
    cases tokenResult with
    | error e => exact hwrote
    | ok token => exact hwrote

/-- A row is inserted under a token found. -/
def InsertsUnderToken (log : CallLog) (call : StorageCall) : Prop :=
  ∀ workflowId position key value createdAt,
    call = .insertCheckpoint workflowId position key value createdAt →
    ∃ token : Int, Replied log (.selectFencingToken workflowId) (Except.ok (some token))

theorem insertsUnderToken_stable : Stable InsertsUnderToken := by
  intro log log' call hl h workflowId position key value createdAt hcall
  obtain ⟨token, htoken⟩ := h workflowId position key value createdAt hcall
  exact ⟨token, htoken.mono hl⟩

theorem insertsUnderToken_of_ne {log : CallLog} {call : StorageCall}
    (h : ∀ workflowId position key value createdAt,
      call ≠ .insertCheckpoint workflowId position key value createdAt) :
    InsertsUnderToken log call :=
  fun workflowId position key value createdAt heq =>
    absurd heq (h workflowId position key value createdAt)

theorem obeys_insertsUnderToken {request : Request} (h : request.writesRow = true) :
    request.handler.Obeys InsertsUnderToken (fun _ _ => True) [] := by
  have hinsert : ∀ (log : CallLog) workflowId (stored : Int) position key value createdAt,
      Replied log (.selectFencingToken workflowId) (Except.ok (some stored)) →
      InsertsUnderToken log (.insertCheckpoint workflowId position key value createdAt) := by
    intro log workflowId stored position key value createdAt htoken _ _ _ _ _ heq
    cases heq
    exact ⟨stored, htoken⟩
  cases request with
  | checkpoint data =>
      rw [Request.handler, obeys_wrap]
      refine obeys_handleCheckpoint data insertsUnderToken_stable ?_ ?_ ?_ ?_
        (fun log stored createdAt _ htoken => hinsert _ _ stored _ _ _ _ htoken)
        (fun _ _ => trivial) (fun _ _ _ => trivial)
      · exact insertsUnderToken_of_ne (by simp)
      · exact insertsUnderToken_of_ne (by simp)
      · exact fun _ => insertsUnderToken_of_ne (by simp)
      · exact fun _ _ => insertsUnderToken_of_ne (by simp)
  | generateIdempotencyKey data =>
      rw [Request.handler, obeys_wrap]
      refine obeys_createDurableIdempotencyKey data ?_ ?_ ?_ ?_
        (fun log stored key createdAt htoken => hinsert _ _ stored _ _ _ _ htoken)
          (fun _ _ => trivial)
      · exact insertsUnderToken_of_ne (by simp)
      · exact fun _ _ => insertsUnderToken_of_ne (by simp)
      · exact fun _ _ => insertsUnderToken_of_ne (by simp)
      · exact fun _ _ _ _ => insertsUnderToken_of_ne (by simp)
  | _ => contradiction

/-! ## What a call does -/

/-- A row stays unless it is deleted as expired. -/
theorem StorageCall.exec_workflows (env : Env) {call : StorageCall} {w : World}
    (hdelete : ∀ currentTimestamp status, call = .deleteWorkflows currentTimestamp status →
      w.expired currentTimestamp status id = false)
    (h : w.workflows id ≠ none) : (call.exec env w).2.workflows id ≠ none := by
  refine exec_preserves env call w (fun w' => w'.workflows id ≠ none) h fun _ => ?_
  cases call with
  | insertWorkflow workflowId status createdAt name =>
      simp only [effect, exec, Fault.apply, World.setWorkflow, Function.update_apply]
      split
      · simp
      · exact h
  | updateWorkflow expireAt status completedAt workflowId =>
      simp only [effect, exec, Fault.apply]
      cases w.workflows workflowId with
      | none => exact h
      | some row =>
          simp only [World.setWorkflow, Function.update_apply]
          split
          · simp
          · exact h
  | deleteWorkflows currentTimestamp status =>
      simp only [effect, exec, Fault.apply, hdelete currentTimestamp status rfl,
        Bool.false_eq_true, if_false]
      exact h
  | _ => exact h

/-- A child is there only if it was, or it was inserted. -/
theorem StorageCall.exec_hasChild (env : Env) {call : StorageCall} {w : World}
    (h : (call.exec env w).2.HasChild id) :
    w.HasChild id ∨ (∃ fencingToken, call = .insertFencingToken id fencingToken) ∨
      ∃ position key value createdAt, call =
        .insertCheckpoint id position key value createdAt := by
  by_cases htoken : ∃ fencingToken, call = .insertFencingToken id fencingToken
  · exact .inr (.inl htoken)
  by_cases hcheckpoint : ∃ position key value createdAt,
      call = .insertCheckpoint id position key value createdAt
  · exact .inr (.inr hcheckpoint)
  refine .inl (exec_preserves env call w (fun w' => w'.HasChild id → w.HasChild id) (fun h => h)
    (fun _ => ?_) h)
  cases call with
  | insertFencingToken workflowId fencingToken =>
      have hne : id ≠ workflowId := fun heq => htoken ⟨fencingToken, by rw [heq]⟩
      rintro (ht | hc)
      · simp only [effect, exec, Fault.apply, World.setFencingToken_fencingTokens,
          if_neg hne] at ht
        exact .inl ht
      · exact .inr hc
  | insertCheckpoint workflowId position key value createdAt =>
      have hne : id ≠ workflowId :=
        fun heq => hcheckpoint ⟨position, key, value, createdAt, by rw [heq]⟩
      rintro (ht | ⟨position', hc⟩)
      · exact .inl ht
      · simp only [effect, exec, Fault.apply, World.setCheckpoint_checkpoints,
          if_neg fun h : id = workflowId ∧ position' = position => hne h.1] at hc
        exact .inr ⟨position', hc⟩
  | deleteFencingTokens currentTimestamp status =>
      rintro (ht | hc)
      · left
        intro hnone
        simp [effect, exec, Fault.apply, hnone] at ht
      · exact .inr hc
  | deleteCheckpoints currentTimestamp status =>
      rintro (ht | ⟨position, hc⟩)
      · exact .inl ht
      · right
        refine ⟨position, fun hnone => ?_⟩
        simp [effect, exec, Fault.apply, hnone] at hc
  | updateWorkflow expireAt status completedAt workflowId =>
      simp only [effect, exec, Fault.apply]
      cases w.workflows workflowId <;> exact fun h => h
  | _ => exact fun h => h

/-! ## Runs -/

/-- What collecting keeps: a workflow that has a child, or may still get one,
has its row, or a start is still to insert it. -/
def Handlers.Whole (id : String) (P : Handlers) : Prop :=
  P.shared.HasChild id ∨ P.Inserting id → P.shared.workflows id ≠ none ∨ P.Registering id

/-- A start that was still to insert the row still is, or has inserted it. -/
theorem registering_step {l : Pool.Label Request Env Drift} (hsucceeds : Succeeds l)
    (hs : Pool.step (serverMachine evictable) P l = some P') (h : P.Registering id) :
    P'.shared.workflows id ≠ none ∨ P'.Registering id := by
  obtain ⟨pid, p, data, hp, htag, hid, hnot⟩ := h
  have hstays : ∃ q, P'.procs pid = some q := process_stays hs (by rw [hp]; simp)
  obtain ⟨q, hq⟩ := hstays
  rcases process_step hs hq with hsame | ⟨request, -, hnone, -⟩ | ⟨p', hp', hqtag, -, hlog⟩
  · rw [hp, Option.some.injEq] at hsame
    exact .inr ⟨pid, q, data, hq, hsame ▸ htag, hid, hsame ▸ hnot⟩
  · rw [hp] at hnone
    contradiction
  · rw [hp, Option.some.injEq] at hp'
    subst hp'
    rcases hlog with hlog | ⟨choice, env, call, next, rfl, -, hshared, hlog⟩
    · exact .inr ⟨pid, q, data, hq, hqtag.trans htag, hid, hlog ▸ hnot⟩
    · by_cases hcall : ∃ status createdAt name, call = .insertWorkflow id status createdAt name
      · obtain ⟨status, createdAt, name, rfl⟩ := hcall
        have hfault : env.fault = .none := hsucceeds
        left
        rw [hshared]
        simp [StorageCall.exec, hfault, Fault.apply, World.setWorkflow]
      · refine .inr ⟨pid, q, data, hq, hqtag.trans htag, hid, ?_⟩
        rw [hlog]
        rintro ⟨entry, hentry, hwrote⟩
        rcases List.mem_cons.mp hentry with rfl | htail
        · exact hcall hwrote
        · exact hnot ⟨entry, htail, hwrote⟩

/-- A child, or a request that may insert one, was there before a step, or a
start has just arrived. -/
theorem child_step (hr : P.Reached evictable) {l : Pool.Label Request Env Drift}
    (hs : Pool.step (serverMachine evictable) P l = some P')
    (h : P'.shared.HasChild id ∨ P'.Inserting id) :
    (P.shared.HasChild id ∨ P.Inserting id) ∨ P'.Registering id := by
  rcases h with hchild | ⟨pid, q, hq, hnot, hid, hkind⟩
  · rcases shared_step hs with hd | ⟨pid, choice, env, p, call, next, -, hp, hrest, hshared⟩
    · left
      left
      unfold World.HasChild at hchild ⊢
      rw [hd.fencingTokens, hd.checkpoints] at hchild
      exact hchild
    · rw [hshared] at hchild
      have hnot : answer p = none := by rw [answer, hrest]
      have hlogged : p.log = Pool.logOf pid P.trace := hr.sound.logged pid p hp
      rcases StorageCall.exec_hasChild env hchild with hold | ⟨fencingToken, rfl⟩ |
        ⟨position, key, value, createdAt, rfl⟩
      · exact .inl (.inl hold)
      · obtain ⟨data, htag, hwid⟩ := calls_of_rest hr hp hrest
        refine .inl (.inr ⟨pid, p, hp, hnot, ?_, .inl ⟨data, htag⟩⟩)
        rw [htag, ← hwid]
        rfl
      · have hmay := hr.sound.obeys hp (p.tag.confined.obeys [])
        rw [hrest] at hmay
        obtain ⟨hplace, hwrites⟩ := hmay.1
        have hunder := hr.sound.obeys hp (obeys_insertsUnderToken hwrites)
        rw [hrest] at hunder
        obtain ⟨token, htoken⟩ := hunder.1 _ _ _ _ _ rfl
        refine .inl (.inr ⟨pid, p, hp, hnot, ?_, .inr ⟨hwrites, token, hlogged ▸ htoken⟩⟩)
        cases htag : p.tag <;> rw [htag] at hplace <;> cases hplace <;> rfl
  · rcases process_step hs hq with hsame | ⟨request, -, -, htag, hlog⟩ |
      ⟨p, hp, htag, hover, hlog⟩
    · exact .inl (.inr ⟨pid, q, hsame, hnot, hid, hkind⟩)
    · rcases hkind with ⟨data, hstart⟩ | ⟨-, token, htoken⟩
      · right
        refine ⟨pid, q, data, hq, hstart, ?_, ?_⟩
        · rw [hstart] at hid
          exact Option.some.inj hid
        · rw [hlog]
          rintro ⟨entry, hentry, -⟩
          contradiction
      · rw [hlog] at htoken
        contradiction
    · rw [htag] at hid
      rcases hkind with ⟨data, hstart⟩ | ⟨hwrites, token, htoken⟩
      · exact .inl (.inr ⟨pid, p, hp, hover, hid, .inl ⟨data, htag ▸ hstart⟩⟩)
      · rw [htag] at hwrites
        rcases hlog with hlog | ⟨choice, env, call, next, -, hrest, -, hlog⟩
        · exact .inl (.inr ⟨pid, p, hp, hover, hid, .inr ⟨hwrites, token, hlog ▸ htoken⟩⟩)
        · rw [hlog] at htoken
          rcases List.mem_cons.mp htoken with hhead | htail
          · injection hhead with hcall hreply
            subst hcall
            have hexec : StorageCall.exec env (.selectFencingToken id) P.shared =
                (Except.ok (some token),
                  (StorageCall.exec env (.selectFencingToken id) P.shared).2) :=
              Prod.ext (eq_of_heq hreply).symm rfl
            obtain ⟨hfound, -⟩ := Fault.apply_eq_ok hexec
            left
            left
            left
            rw [← hfound]
            simp
          · exact .inl (.inr ⟨pid, p, hp, hover, hid, .inr ⟨hwrites, token, htail⟩⟩)

theorem whole_step (hr : P.Reached evictable) (h : P.Whole id)
    {l : Pool.Label Request Env Drift} (hsucceeds : Succeeds l)
    (hcollects : P.CollectsWhole id l)
    (hs : Pool.step (serverMachine evictable) P l = some P') : P'.Whole id := by
  intro hchild'
  rcases child_step hr hs hchild' with hchild | hregistering
  · rcases h hchild with hrow | hregistering
    · rcases shared_step hs with hd | ⟨pid, choice, env, p, call, next, rfl, hp, hrest, hshared⟩
      · left
        rw [hd.workflows]
        exact hrow
      · by_cases hdelete : ∃ currentTimestamp status,
            call = .deleteWorkflows currentTimestamp status ∧
              P.shared.expired currentTimestamp status id = true
        · obtain ⟨currentTimestamp, status, rfl, hexpired⟩ := hdelete
          rcases hcollects p currentTimestamp status next hp hrest hexpired with
            hnone | hregistering
          · exact absurd hchild (not_or.mpr hnone)
          · exact registering_step hsucceeds hs hregistering
        · left
          rw [hshared]
          refine StorageCall.exec_workflows env (fun currentTimestamp status hcall => ?_) hrow
          rw [Bool.eq_false_iff]
          exact fun hexpired => hdelete ⟨currentTimestamp, status, hcall, hexpired⟩
    · exact registering_step hsucceeds hs hregistering
  · exact .inr hregistering

/-- **No orphans**: in a run whose calls all succeed and that never deletes the
workflow's row while a child is stored or may still be inserted, the workflow
has its row whenever it has a child and no request is on its way. -/
theorem no_orphans (hr : P.Collecting evictable id) (hquiescent : P.Quiescent)
    (hchild : P.shared.HasChild id) : P.shared.workflows id ≠ none := by
  have hwhole : P.Whole id := by
    refine hr.invariant_of_reachable (Handlers.Whole id) ?_ ?_
    · rintro _ ⟨w, hw, rfl⟩ hchild
      rcases hchild with hchild | ⟨pid, p, hp, -⟩
      · exact .inl (hw hchild)
      · contradiction
    · intro Q l Q' hQ h hok hs
      exact whole_step (Handlers.Collecting.reached hQ) h hok.1 hok.2 hs
  rcases hwhole (.inl hchild) with hrow | ⟨pid, p, data, hp, htag, hid, hnot⟩
  · exact hrow
  · -- A start that is over has inserted the row.
    obtain ⟨result, hanswer⟩ := Option.ne_none_iff_exists'.mp (hquiescent pid p hp)
    have hobeys : p.tag.handler.Obeys (fun _ _ => True)
        (fun log _ => WroteWorkflow data.workflowId log) [] := by
      rw [htag]
      exact obeys_wroteWorkflow data
    have hends := hr.reached.sound.obeys hp hobeys
    rw [answer_eq_some.mp hanswer, ← hr.reached.sound.logged pid p hp] at hends
    exact absurd (hid ▸ hends) hnot

/-! ## Examples of runs -/

/-- Who never arrives is not there. -/
theorem not_arrived {ls : List (Pool.Label Request Env Drift)} {pid : Nat}
    (hnone : P.procs pid = none) (hls : ∀ request, .arrive pid request ∉ ls)
    (he : exec (Pool.step (serverMachine evictable)) P ls = some P') : P'.procs pid = none := by
  induction ls generalizing P with
  | nil =>
      simp only [exec, Option.some.injEq] at he
      rw [← he, hnone]
  | cons l ls ih =>
      simp only [exec, Option.bind_eq_some_iff] at he
      obtain ⟨Q, hs, he⟩ := he
      refine ih ?_ (fun request h => hls request (List.mem_cons_of_mem _ h)) he
      cases hq : Q.procs pid with
      | none => rfl
      | some q =>
          rcases process_step hs hq with hsame | ⟨request, rfl, -⟩ | ⟨p, hp, -⟩
          · rw [hnone] at hsame
            contradiction
          · exact absurd List.mem_cons_self (hls request)
          · rw [hnone] at hp
            contradiction

/-- A workflow is started. -/
theorem started_not_orphaned :
    ∃ P : Handlers, runLabels (arrives 0 payStart 5) = some P ∧ P.shared.HasChild "pay" ∧
      P.shared.workflows "pay" ≠ none := by
  obtain ⟨P, h⟩ : ∃ P, runLabels (arrives 0 payStart 5) = some P :=
    Option.isSome_iff_exists.mp rfl
  have hr : Handlers.Reached leaseExpired (Pool.start (World.empty 0)) := .start ⟨_, rfl⟩
  have hnone : Handlers.NoCleanUp (Pool.start (World.empty 0)) := fun pid p hp => by
    simp [Pool.start] at hp
  have hstart : ∀ pid, Pool.Label.arrive pid Request.cleanUp ∉ arrives 0 payStart 5 := by
    simp [arrives, payStart]
  have hsucceeds : ∀ l ∈ arrives 0 payStart 5, Succeeds l := by decide
  have hsteps : ∀ Q : Handlers, Q.Reached leaseExpired → Q.NoCleanUp →
    ∀ l ∈ arrives 0 payStart 5,
      Succeeds l ∧ Q.CollectsWhole "pay" l :=
    fun Q hQ hn l hl => ⟨hsucceeds l hl, collectsWhole_of_noCleanUp hQ hn l⟩
  obtain ⟨hspan, -⟩ := reachable_of_noCleanUp hr hnone hstart hsteps h
  have hempty : ¬ (World.empty 0).HasChild "pay" := by simp [World.HasChild, World.empty]
  have hcollecting : P.Collecting leaseExpired "pay" :=
    .trans (.start ⟨World.empty 0, fun hchild => absurd hchild hempty, rfl⟩) hspan
  have hover := eq_of_runLabels h (fun P => (P.procs 0).map fun p => (answer p).isSome)
    (a := some true) rfl
  have hquiescent : P.Quiescent := by
    intro pid p hp
    by_cases hpid : pid = 0
    · rw [hpid] at hp
      rw [hp, Option.map_some, Option.some.injEq] at hover
      exact Option.isSome_iff_ne_none.mp hover
    · have hnever : P.procs pid = none :=
        not_arrived rfl (fun request => by simp [arrives, hpid]) h
      rw [hnever] at hp
      cases hp
  have hchild : P.shared.HasChild "pay" := by
    left
    rw [eq_of_runLabels h (fun P => P.shared.fencingTokens "pay") (a := some 1) rfl]
    simp
  exact ⟨P, h, hchild, no_orphans hcollecting hquiescent hchild⟩

/-- A completed workflow is cleaned up; after the children were deleted it is
started again; then its row is deleted. -/
def orphaned : List (Pool.Label Request Env Drift) :=
  arrives 0 payStart 5 ++
    arrives 1
      (.completeWorkflow { workflowId := "pay", fencingToken := 1, expireAfter := 0 }) 4 ++
    [.drift (.tick 1)] ++ arrives 2 .cleanUp 5 ++ arrives 3 payStart 5 ++ goesOn 2 1

/-- All calls have succeeded and no request is on its way: the token is stored,
and the workflow has no row. -/
theorem restarted_workflow_orphaned :
    ∃ P : Handlers, runLabels orphaned = some P ∧ (∀ l ∈ orphaned, Succeeds l) ∧ P.Quiescent ∧
      P.shared.HasChild "pay" ∧ P.shared.workflows "pay" = none := by
  obtain ⟨P, h⟩ : ∃ P, runLabels orphaned = some P :=
    Option.isSome_iff_exists.mp (by decide +kernel)
  have hover := eq_of_runLabels h (fun P => (List.range 4).map fun pid =>
      (P.procs pid).map fun p => (answer p).isSome)
    (a := [some true, some true, some true, some true]) (by decide +kernel)
  refine ⟨P, h, by decide, fun pid p hp => ?_, .inl ?_, ?_⟩
  · by_cases hpid : pid < 4
    · have hall : ∀ o ∈ (List.range 4).map fun pid => (P.procs pid).map fun p =>
        (answer p).isSome,
          o = some true := by
        rw [hover]
        simp
      have ho := hall ((P.procs pid).map fun p => (answer p).isSome)
        (List.mem_map.mpr ⟨pid, List.mem_range.mpr hpid, rfl⟩)
      rw [hp, Option.map_some, Option.some.injEq] at ho
      exact Option.isSome_iff_ne_none.mp ho
    · have hnever : P.procs pid = none := by
        refine not_arrived rfl (fun request => ?_) h
        simp [orphaned, arrives, goesOn]
        omega
      rw [hnever] at hp
      cases hp
  · rw [eq_of_runLabels h (fun P => P.shared.fencingTokens "pay") (a := some 1)
      (by decide +kernel)]
    simp
  · exact eq_of_runLabels h (fun P => P.shared.workflows "pay") (by decide +kernel)

end IdempotentTransformer
