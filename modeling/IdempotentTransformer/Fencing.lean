import IdempotentTransformer.Interleaving

/-!
# IdempotentTransformer.Fencing

Superseded workers in every interleaving of storage calls: once a start of
a workflow has returned its token, no request that arrives later with an
older one is granted a lease, mints a key, or is acknowledged without
abort.
-/

namespace IdempotentTransformer

open Library Program

variable {evictable : CachedLease → Int → Bool} {P P' : Handlers}

/-- The step does not clean up the workflow: no token of it is deleted. -/
def Handlers.Spares (workflowId : String) (P : Handlers) : Pool.Label Request Env Drift → Prop
  | .advance pid _ _ => ∀ p currentTimestamp status next, P.procs pid = some p →
      p.rest = .call (.deleteFencingTokens currentTimestamp status) next →
      P.shared.expired currentTimestamp status workflowId = false
  | _ => True

/-- The states reached from `P` without cleaning up the workflow. -/
def Handlers.Within (evictable : CachedLease → Int → Bool) (workflowId : String)
    (P P' : Handlers) : Prop :=
  Reachable (Pool.step (serverMachine evictable)) (Handlers.Spares workflowId) (· = P) P'

/-- A span of a run is part of a run. -/
theorem Handlers.Within.reached {workflowId : String} (h : P.Within evictable workflowId P')
    (hr : P.Reached evictable) : P'.Reached evictable :=
  hr.trans (h.mono fun _ _ _ => trivial)

/-- No cleanup is on its way. -/
def Handlers.NoCleanUp (P : Handlers) : Prop :=
  ∀ pid p, P.procs pid = some p → p.tag ≠ .cleanUp

/-- A call under way is one its request may make. -/
theorem calls_of_rest (hr : P.Reached evictable) {pid : Nat}
    {p : Process StorageCall StorageCall.Reply String (Except HandlerError Response) Request}
    (hp : P.procs pid = some p) {call : StorageCall}
    {next : call.Reply →
      Program StorageCall StorageCall.Reply String (Except HandlerError Response)}
    (hrest : p.rest = .call call next) : p.tag.Calls (Pool.logOf pid P.trace) call := by
  have hobeys := hr.sound.obeys hp (Request.obeys p.tag)
  rw [hrest] at hobeys
  exact hobeys.1

/-- Only cleanup deletes tokens. -/
theorem spares_of_noCleanUp (hr : P.Reached evictable) (hnone : P.NoCleanUp)
    (workflowId : String) (l : Pool.Label Request Env Drift) : P.Spares workflowId l := by
  cases l with
  | arrive pid request => trivial
  | drift d => trivial
  | advance pid choice env =>
      intro p currentTimestamp status next hp hrest
      exact absurd (calls_of_rest hr hp hrest) (hnone pid p hp)

/-- A condition that holds of every step while no cleanup is on its way holds
of every run in which none arrives. -/
theorem reachable_of_noCleanUp {ok : Handlers → Pool.Label Request Env Drift → Prop}
    (hr : P.Reached evictable) (hnone : P.NoCleanUp) {ls : List (Pool.Label Request Env Drift)}
    (hls : ∀ pid, .arrive pid .cleanUp ∉ ls)
    (hok : ∀ Q : Handlers, Q.Reached evictable → Q.NoCleanUp → ∀ l ∈ ls, ok Q l)
    (he : exec (Pool.step (serverMachine evictable)) P ls = some P') :
    Reachable (Pool.step (serverMachine evictable)) ok (· = P) P' ∧ P'.NoCleanUp := by
  induction ls generalizing P with
  | nil =>
      simp only [exec, Option.some.injEq] at he
      subst he
      exact ⟨.start rfl, hnone⟩
  | cons l ls ih =>
      simp only [exec, Option.bind_eq_some_iff] at he
      obtain ⟨Q, hs, he⟩ := he
      have hnone' : Handlers.NoCleanUp Q := by
        refine tags_step (T := (· ≠ .cleanUp)) hnone (fun pid request heq => ?_) hs
        intro hclean
        rw [heq, hclean] at hls
        exact hls pid List.mem_cons_self
      obtain ⟨hrest, hend⟩ := ih (hr.step trivial hs) hnone'
        (fun pid h => hls pid (List.mem_cons_of_mem _ h))
        (fun Q hQ hn l hl => hok Q hQ hn l (List.mem_cons_of_mem _ hl)) he
      exact ⟨Reachable.trans
        (.step (.start rfl) (hok P hr hnone l List.mem_cons_self) hs) hrest, hend⟩

/-- A run in which no cleanup arrives spares every workflow. -/
theorem within_of_exec (hr : P.Reached evictable) (hnone : P.NoCleanUp)
    {ls : List (Pool.Label Request Env Drift)} (hls : ∀ pid, .arrive pid .cleanUp ∉ ls)
    (he : exec (Pool.step (serverMachine evictable)) P ls = some P') (workflowId : String) :
    P.Within evictable workflowId P' ∧ P'.NoCleanUp :=
  reachable_of_noCleanUp hr hnone hls
    (fun _ hQ hn l _ => spares_of_noCleanUp hQ hn workflowId l) he

/-- The stored token of the workflow is at least `token`. -/
def World.TokenAtLeast (w : World) (workflowId : String) (token : Int) : Prop :=
  ∃ stored, w.fencingTokens workflowId = some stored ∧ token ≤ stored

/-- The stored token only grows. -/
theorem tokenAtLeast_step {l : Pool.Label Request Env Drift}
    (hs : Pool.step (serverMachine evictable) P l = some P') {workflowId : String}
    (hspares : P.Spares workflowId l) {token : Int}
    (h : P.shared.TokenAtLeast workflowId token) : P'.shared.TokenAtLeast workflowId token := by
  obtain ⟨stored, htoken, hle⟩ := h
  rcases shared_step hs with hd | ⟨pid, choice, env, p, call, next, rfl, hp, hrest, hshared⟩
  · exact ⟨stored, by rw [hd.fencingTokens, htoken], hle⟩
  · have hdelete : ∀ currentTimestamp status, call =
      .deleteFencingTokens currentTimestamp status →
        P.shared.expired currentTimestamp status workflowId = false := by
      rintro currentTimestamp status rfl
      exact hspares p currentTimestamp status next hp hrest
    obtain ⟨stored', hstored, hle'⟩ := StorageCall.exec_token env call P.shared hdelete htoken
    exact ⟨stored', hshared ▸ hstored, le_trans hle hle'⟩

/-- Once a start has been told its token, the stored one is at least that. -/
theorem tokenAtLeast_of_started {workflowId : String} (hr : P.Reached evictable) {pid : Nat}
    (hnew : P.procs pid = none) (hw : P.Within evictable workflowId P') {token : Int}
    (h : Replied (Pool.logOf pid P'.trace) (.insertFencingToken workflowId 1)
      (Except.ok token)) :
    P'.shared.TokenAtLeast workflowId token := by
  refine Reachable.invariant (fun Q => ∀ token : Int,
    Replied (Pool.logOf pid Q.trace) (.insertFencingToken workflowId 1) (Except.ok token) →
      Q.shared.TokenAtLeast workflowId token) hw ?_ ?_ token h
  · rintro _ rfl token h
    rw [hr.sound.logOf_eq_nil hnew] at h
    contradiction
  · intro Q l Q' ih hspares hs token h
    rcases replied_step hs h with hold | ⟨env, hexec⟩
    · exact tokenAtLeast_step hs hspares (ih token hold)
    · obtain ⟨htoken, hshared⟩ := Fault.apply_eq_ok hexec
      refine ⟨token, ?_, le_refl token⟩
      rw [hshared, World.setFencingToken_fencingTokens, if_pos rfl, htoken]

/-- A request that arrives after a token was stored reads no older one. -/
theorem token_read_of_later {workflowId : String} (hr : P.Reached evictable) {token : Int}
    (htoken : P.shared.TokenAtLeast workflowId token) (hw : P.Within evictable workflowId P')
    {pid : Nat} (hlater : P.procs pid = none) {found : Option Int}
    (h : Replied (Pool.logOf pid P'.trace) (.selectFencingToken workflowId) (Except.ok found)) :
    ∃ stored, found = some stored ∧ token ≤ stored := by
  have hinv := Reachable.invariant (fun Q => Q.shared.TokenAtLeast workflowId token ∧
    ∀ found : Option Int,
      Replied (Pool.logOf pid Q.trace) (.selectFencingToken workflowId) (Except.ok found) →
      ∃ stored, found = some stored ∧ token ≤ stored) hw ?_ ?_
  · exact hinv.2 found h
  · rintro _ rfl
    refine ⟨htoken, fun found h => ?_⟩
    rw [hr.sound.logOf_eq_nil hlater] at h
    contradiction
  · rintro Q l Q' ⟨hstored, ih⟩ hspares hs
    refine ⟨tokenAtLeast_step hs hspares hstored, fun found h => ?_⟩
    rcases replied_step hs h with hold | ⟨env, hexec⟩
    · exact ih found hold
    · obtain ⟨hfound, -⟩ := Fault.apply_eq_ok hexec
      obtain ⟨stored, hs', hle⟩ := hstored
      exact ⟨stored, hfound.trans hs', hle⟩

/-- **Superseded workers are fenced in every interleaving**: from `P₀` on the
workflow is not cleaned up; a start that arrived after `P₀` has returned
`token` by `P₁`; a request that arrives after `P₁` with an older token writes
no lease and is granted none, mints no key, and is not acknowledged without
abort. -/
theorem superseded_fenced {P₀ P₁ P₂ : Handlers} (hr : P₀.Reached evictable)
    {start : CreateWorkflowInput} (hspan : P₀.Within evictable start.workflowId P₁)
    {starter : Nat} (hnew : P₀.procs starter = none)
    {p : Process StorageCall StorageCall.Reply String (Except HandlerError Response) Request}
    (hp : P₁.procs starter = some p) (ht : p.tag = .workflowStart start) {token : Int}
    (hreturned : p.rest = .ret (.ok (.workflowStart { fencingToken := token })))
    (hspan' : P₁.Within evictable start.workflowId P₂) {pid : Nat}
    (hlater : P₁.procs pid = none)
    {q : Process StorageCall StorageCall.Reply String (Except HandlerError Response) Request}
    (hq : P₂.procs pid = some q) :
    (∀ data, q.tag = .leaseCheckpoint data → data.workflowId = start.workflowId →
        data.fencingToken < token → q.rest ≠ .ret granted ∧
          ∀ e ∈ P₂.trace, e.pid = pid → ∀ key lease ttl, e.op ≠ .cachePut key lease ttl) ∧
      (∀ data, q.tag = .generateIdempotencyKey data → data.workflowId = start.workflowId →
        data.fencingToken < token → ∀ e ∈ P₂.trace, e.pid = pid → e.op ≠ .newV4) ∧
      ∀ data, q.tag = .checkpoint data → data.workflowId = start.workflowId →
        data.fencingToken < token → q.rest ≠ .ret (.ok (.checkpoint { abort := false })) := by
  have hr₁ := hspan.reached hr
  have hr₂ := hspan'.reached hr₁
  have hstored : P₁.shared.TokenAtLeast start.workflowId token := by
    have hanswers := hr₁.sound.obeys hp (Request.obeys p.tag)
    rw [hreturned, ht] at hanswers
    obtain ⟨data, hd, hreplied⟩ := hanswers
    cases hd
    exact tokenAtLeast_of_started hr hnew hspan hreplied
  -- Whatever the request has read of the token is at least `token`.
  have hread : ∀ earlier : List StorageEvent, earlier ⊆ P₂.trace → ∀ found : Int,
      Replied (Pool.logOf pid earlier) (.selectFencingToken start.workflowId)
        (Except.ok (some found)) → token ≤ found := by
    intro earlier hsub found hreplied
    have hmem : Replied (Pool.logOf pid P₂.trace) (.selectFencingToken start.workflowId)
        (Except.ok (some found)) := by
      simp only [Replied, Pool.logOf, List.mem_map, List.mem_filter] at hreplied ⊢
      obtain ⟨e, ⟨he, hpid⟩, heq⟩ := hreplied
      exact ⟨e, ⟨hsub he, hpid⟩, heq⟩
    obtain ⟨stored, hfound, hle⟩ := token_read_of_later hr₁ hstored hspan' hlater hmem
    rwa [Option.some.inj hfound]
  have hcalls : ∀ e ∈ P₂.trace, e.pid = pid → ∃ earlier, earlier ⊆ P₂.trace ∧
      q.tag.Calls (Pool.logOf pid earlier) e.op := by
    rintro e he rfl
    obtain ⟨later, earlier, hsplit⟩ := List.append_of_mem he
    refine ⟨earlier, fun g hg => by rw [hsplit]; simp [hg], ?_⟩
    obtain ⟨q', hq', htag⟩ := hr₂.sound.tagged e he
    rw [hq, Option.some.injEq] at hq'
    rw [hq', htag]
    exact hr₂.calls hsplit
  have hanswers := hr₂.sound.obeys hq (Request.obeys q.tag)
  refine ⟨fun data hd hw hlt => ?_, fun data hd hw hlt => ?_, fun data hd hw hlt => ?_⟩
  · have hnoput : ∀ e ∈ P₂.trace, e.pid = pid →
        ∀ key lease ttl, e.op ≠ .cachePut key lease ttl := by
      intro e he hpid key lease ttl hop
      obtain ⟨earlier, hsub, hcall⟩ := hcalls e he hpid
      rw [hop, hd] at hcall
      obtain ⟨data', heq, -, -, -, htoken, -⟩ := hcall
      cases heq
      rw [hw] at htoken
      have hle := hread earlier hsub _ htoken
      omega
    refine ⟨fun hg => ?_, hnoput⟩
    rw [hg, hd] at hanswers
    obtain ⟨data', lease, ttl, heq, hput⟩ := hanswers rfl
    obtain ⟨later, e, earlier, env, hsplit, hpid, hop, -⟩ :=
      hr₂.sound.exists_of_mem_logOf (List.Subset.refl _) hput
    exact hnoput e (by rw [hsplit]; simp) hpid _ _ _ hop
  · intro e he hpid hop
    obtain ⟨earlier, hsub, hcall⟩ := hcalls e he hpid
    rw [hop, hd] at hcall
    obtain ⟨data', stored, heq, htoken, hle⟩ := hcall
    cases heq
    rw [hw] at htoken
    have hle' := hread earlier hsub _ htoken
    omega
  · intro hack
    rw [hack, hd] at hanswers
    obtain ⟨data', stored, heq, htoken, habort⟩ := hanswers
    cases heq
    rw [hw] at htoken
    have hle := hread P₂.trace (List.Subset.refl _) _ htoken
    have hnot : ¬ data.fencingToken < stored := of_decide_eq_false habort.symm
    omega

/-- Two workers start, one after the other. -/
def twoStarts : List (Pool.Label Request Env Drift) :=
  arrives 0 payStart 5 ++ arrives 1 payStart 5

/-- After two starts, a lease request of the first worker arrives. -/
theorem late_lease_fenced :
    ∃ P q, runLabels (twoStarts ++ arrives 2 (payLease 1) 6) = some P ∧ P.procs 2 = some q ∧
      q.rest = .ret (.error (.io .InvalidData "fencing_token_expired")) ∧
        q.rest ≠ .ret granted := by
  obtain ⟨P₁, h₁⟩ : ∃ P, runLabels twoStarts = some P := Option.isSome_iff_exists.mp rfl
  obtain ⟨P₂, h₂⟩ : ∃ P, runLabels (twoStarts ++ arrives 2 (payLease 1) 6) = some P :=
    Option.isSome_iff_exists.mp rfl
  have hr : Handlers.Reached leaseExpired (Pool.start (World.empty 0)) := .start ⟨_, rfl⟩
  have hnone : Handlers.NoCleanUp (Pool.start (World.empty 0)) := fun pid p hp => by
    simp [Pool.start] at hp
  have hstarts : ∀ pid, Pool.Label.arrive pid Request.cleanUp ∉ twoStarts := by
    simp [twoStarts, arrives, payStart]
  have hlease : ∀ pid, Pool.Label.arrive pid Request.cleanUp ∉ arrives 2 (payLease 1) 6 := by
    simp [arrives, payLease]
  obtain ⟨hspan, hnone₁⟩ := within_of_exec hr hnone hstarts h₁ "pay"
  obtain ⟨hspan', -⟩ := within_of_exec (hspan.reached hr) hnone₁ hlease
    (runLabels_append h₁ h₂) "pay"
  obtain ⟨p, hp⟩ : ∃ p, P₁.procs 1 = some p := Option.isSome_iff_exists.mp
    (eq_of_runLabels h₁ (fun P => (P.procs 1).isSome) rfl)
  obtain ⟨q, hq⟩ : ∃ q, P₂.procs 2 = some q := Option.isSome_iff_exists.mp
    (eq_of_runLabels h₂ (fun P => (P.procs 2).isSome) rfl)
  have hlater : P₁.procs 2 = none := Option.isNone_iff_eq_none.mp
    (eq_of_runLabels h₁ (fun P => (P.procs 2).isNone) rfl)
  have hstarter := eq_of_runLabels h₁ (fun P => (P.procs 1).map fun p => (p.tag, p.rest))
    (a := some (payStart, .ret (.ok (.workflowStart { fencingToken := 2 })))) rfl
  have hasker := eq_of_runLabels h₂ (fun P => (P.procs 2).map fun q => (q.tag, q.rest))
    (a := some (payLease 1, .ret (.error (.io .InvalidData "fencing_token_expired")))) rfl
  rw [hp, Option.map_some, Option.some.injEq, Prod.mk.injEq] at hstarter
  rw [hq, Option.map_some, Option.some.injEq, Prod.mk.injEq] at hasker
  obtain ⟨hfenced, -⟩ :=
    superseded_fenced hr hspan rfl hp hstarter.1 hstarter.2 hspan' hlater hq
  exact ⟨P₂, q, h₂, hq, hasker.2, (hfenced _ hasker.1 rfl (by decide)).1⟩

end IdempotentTransformer
