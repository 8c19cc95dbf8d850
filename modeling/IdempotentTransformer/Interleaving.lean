import IdempotentTransformer.Library.Pool
import IdempotentTransformer.Discipline
import IdempotentTransformer.Server

/-!
# IdempotentTransformer.Interleaving

Runs of the server one storage call at a time: any number of handlers take
turns between their awaits, calls may fail, the clock advances and the
cache drops entries in between.
-/

namespace IdempotentTransformer

open Library Program

/-! ## The machine -/

/-- How the world moves between storage calls. -/
inductive Drift
  /-- The clock advances. -/
  | tick (elapsed : Nat)
  /-- The cache drops an entry. -/
  | evict (key : String)

def Drift.apply (evictable : CachedLease → Int → Bool) : Drift → World → Option World
  | .tick elapsed, w => some (w.tick elapsed)
  | .evict key, w => w.evict evictable key

/-- Every request runs its handler over the storage calls. -/
def serverMachine (evictable : CachedLease → Int → Bool) :
    Machine StorageCall StorageCall.Reply String
      (Except HandlerError Response) Request World Env Drift where
  program request := request.handler.program
  exec := StorageCall.exec
  drift := Drift.apply evictable

/-- Handlers on their way. -/
abbrev Handlers :=
  Pool StorageCall StorageCall.Reply String (Except HandlerError Response) Request World

/-- A storage call of a run. -/
abbrev StorageEvent := Event StorageCall StorageCall.Reply Request World

/-- What a call has answered, if it is over. -/
def answer
    (p : Process StorageCall StorageCall.Reply String (Except HandlerError Response) Request) :
    Option (Except HandlerError Response) :=
  match p.rest with
  | .ret result => some result
  | _ => none

theorem answer_eq_some
    {p : Process StorageCall StorageCall.Reply String (Except HandlerError Response) Request}
    {result : Except HandlerError Response} : answer p = some result ↔
      p.rest = .ret result := by
  unfold answer
  cases p.rest <;> simp

/-- The runs of the handlers, one storage call at a time, from any stored
world. -/
def Handlers.Reached (evictable : CachedLease → Int → Bool) (P : Handlers) : Prop :=
  Reachable (Pool.step (serverMachine evictable)) anyStep (fun P => ∃ w, P = Pool.start w) P

/-- The world drifts: only the clock and the cache move, the clock forward,
and the cache only by dropping what it may drop. -/
structure World.Drifts (evictable : CachedLease → Int → Bool) (w w' : World) : Prop where
  workflows : w'.workflows = w.workflows
  fencingTokens : w'.fencingTokens = w.fencingTokens
  checkpoints : w'.checkpoints = w.checkpoints
  now : w.now ≤ w'.now
  cache : ∀ key, w'.cache key = w.cache key ∨
    w'.cache key = none ∧ ∃ entry n, w.cache key = some entry ∧ n ≤ w'.now ∧
      evictable entry n = true

namespace World.Drifts

variable {evictable : CachedLease → Int → Bool} {w w' w'' : World}

theorem refl (w : World) : w.Drifts evictable w where
  workflows := rfl
  fencingTokens := rfl
  checkpoints := rfl
  now := le_rfl
  cache := fun _ => .inl rfl

theorem trans (h : w.Drifts evictable w') (h' : w'.Drifts evictable w'') :
    w.Drifts evictable w'' where
  workflows := h'.workflows.trans h.workflows
  fencingTokens := h'.fencingTokens.trans h.fencingTokens
  checkpoints := h'.checkpoints.trans h.checkpoints
  now := h.now.trans h'.now
  cache := by
    intro key
    rcases h'.cache key with hc' | ⟨hn, entry, n, hc', hle, he⟩
    · rcases h.cache key with hc | ⟨hn, entry, n, hc, hle, he⟩
      · exact .inl (hc'.trans hc)
      · exact .inr ⟨hc'.trans hn, entry, n, hc, hle.trans h'.now, he⟩
    · rcases h.cache key with hc | ⟨hnone, -⟩
      · exact .inr ⟨hn, entry, n, hc ▸ hc', hle, he⟩
      · rw [hnone] at hc'; contradiction

theorem of_apply {d : Drift} (h : d.apply evictable w = some w') : w.Drifts evictable w' := by
  cases d with
  | tick elapsed =>
      cases h
      exact ⟨rfl, rfl, rfl, by simp [World.tick], fun _ => .inl rfl⟩
  | evict key =>
      obtain ⟨entry, hc, he, rfl⟩ := World.evict_eq_some h
      refine ⟨rfl, rfl, rfl, le_rfl, fun key' => ?_⟩
      rw [World.setCache_cache]
      split
      · next heq => exact .inr ⟨rfl, entry, w.now, heq ▸ hc, le_rfl, he⟩
      · exact .inl rfl

end World.Drifts

/-- **Every run keeps its record sound.** -/
theorem Handlers.Reached.sound {evictable : CachedLease → Int → Bool} {P : Handlers}
    (hr : P.Reached evictable) :
    Pool.Sound (serverMachine evictable) (World.Drifts evictable) P :=
  .of_reachable World.Drifts.refl (fun _ _ _ => World.Drifts.trans)
    (fun _ _ _ => World.Drifts.of_apply) hr

section Sound

variable {evictable : CachedLease → Int → Bool} {P : Handlers}

/-- Every call of a run keeps the discipline of its request. -/
theorem Handlers.Reached.calls (hr : P.Reached evictable) {later earlier : List StorageEvent}
    {e : StorageEvent} (he : P.trace = later ++ e :: earlier) :
    e.tag.Calls (Pool.logOf e.pid earlier) e.op :=
  hr.sound.obeyed he (Request.obeys e.tag)

/-- Every call of a run left what it leaves. -/
theorem Handlers.Reached.after_eq (hr : P.Reached evictable) {e : StorageEvent}
    (he : e ∈ P.trace) :
    ∃ env, e.after = (e.op.exec env e.before).2 := by
  obtain ⟨env, henv⟩ := hr.sound.executed e he
  exact ⟨env, (congrArg Prod.snd henv).symm⟩

/-- Time does not run backwards in a run. -/
theorem Handlers.Reached.now_le (hr : P.Reached evictable)
    {later between earlier : List StorageEvent} {e₁ e₂ : StorageEvent}
    (he : P.trace = later ++ e₂ :: (between ++ e₁ :: earlier)) :
      e₁.before.now ≤ e₂.before.now := by
  have hsame : ∀ e ∈ P.trace, e.after.now = e.before.now := by
    intro e hmem
    obtain ⟨env, hafter⟩ := hr.after_eq hmem
    rw [hafter, StorageCall.exec_now]
  have hbetween : ∀ e ∈ between, e.before.now ≤ e.after.now := by
    intro e hmem
    rw [hsame e (by rw [he]; simp [hmem])]
  have hspan := (hr.sound.span_between he).related (T := fun w w' => w.now ≤ w'.now)
    (fun _ _ _ => le_trans) (fun _ _ h => h.now) hbetween
  rw [hsame e₁ (by rw [he]; simp)] at hspan
  exact hspan

/-- A stored row keeps its key and value through every call but those of
cleanup. -/
theorem Handlers.Reached.row_kept (hr : P.Reached evictable) {e : StorageEvent}
    (he : e ∈ P.trace) (hu : e.tag ≠ .cleanUp) {workflowId : String} {position : Int}
    {row : Checkpoint}
    (hrow : e.before.checkpoints workflowId position = some row) :
    ∃ createdAt, e.after.checkpoints workflowId position =
      some { row with createdAt := createdAt } := by
  obtain ⟨later, earlier, hsplit⟩ := List.append_of_mem he
  have hcalls := hr.calls hsplit
  have hdelete : ∀ currentTimestamp status, e.op ≠
    .deleteCheckpoints currentTimestamp status := by
    intro currentTimestamp status hop
    rw [hop] at hcalls
    exact hu hcalls
  obtain ⟨env, hafter⟩ := hr.after_eq he
  rw [hafter]
  exact StorageCall.exec_row env e.op e.before hdelete hrow

/-- What a step does to the world: a storage call, or drift. -/
theorem shared_step {P' : Handlers} {l : Pool.Label Request Env Drift}
    (hs : Pool.step (serverMachine evictable) P l = some P') :
    P.shared.Drifts evictable P'.shared ∨
      ∃ pid choice env p call next, l = .advance pid choice env ∧ P.procs pid = some p ∧
        p.rest = .call call next ∧ P'.shared = (call.exec env P.shared).2 := by
  rcases Pool.step_cases hs with ⟨pid, tag, -, -, rfl⟩ |
    ⟨pid, choice, env, p, call, next, rfl, hp, hrest, rfl⟩ |
    ⟨pid, choice, env, p, rest, held, -, -, -, rfl⟩ | ⟨d, w, -, hd, rfl⟩
  · exact .inl (.refl _)
  · exact .inr ⟨pid, choice, env, p, call, next, rfl, hp, hrest, rfl⟩
  · exact .inl (.refl _)
  · exact .inl (.of_apply hd)

/-- **A process after a step**: as it was, or it has just arrived, or it made the
step, and was not over before. -/
theorem process_step {P' : Handlers} {l : Pool.Label Request Env Drift}
    (hs : Pool.step (serverMachine evictable) P l = some P') {pid : Nat}
    {q : Process StorageCall StorageCall.Reply String (Except HandlerError Response) Request}
    (hq : P'.procs pid = some q) :
    P.procs pid = some q ∨
      (∃ request, l = .arrive pid request ∧ P.procs pid = none ∧ q.tag = request ∧ q.log = []) ∨
      ∃ p, P.procs pid = some p ∧ q.tag = p.tag ∧ answer p = none ∧
        (q.log = p.log ∨ ∃ choice env call next, l = .advance pid choice env ∧
          p.rest = .call call next ∧ P'.shared = (call.exec env P.shared).2 ∧
          q.log = ⟨call, (call.exec env P.shared).1⟩ :: p.log) := by
  rcases Pool.step_cases hs with ⟨pid', request, rfl, hnone, rfl⟩ |
    ⟨pid', choice, env, p, call, next, rfl, hp, hrest, rfl⟩ |
    ⟨pid', choice, env, p, rest, held, -, hp, hsilent, rfl⟩ | ⟨d, w, -, -, rfl⟩
  · simp only [Pool.setProcess, Function.update_apply] at hq
    split at hq
    · next heq =>
        cases hq
        exact .inr (.inl ⟨request, by rw [heq], by rw [heq, hnone], rfl, rfl⟩)
    · exact .inl hq
  · simp only [Pool.perform, Pool.setProcess, Function.update_apply] at hq
    split at hq
    · next heq =>
        cases hq
        have hnot : answer p = none := by
          rw [answer, hrest]
        exact .inr
          (.inr ⟨p, heq ▸ hp, rfl, hnot, .inr ⟨choice, env, call, next, by rw [heq], hrest,
          rfl, rfl⟩⟩)
    · exact .inl hq
  · simp only [Pool.setProcess, Function.update_apply] at hq
    split at hq
    · next heq =>
        cases hq
        have hnot : answer p = none := by
          unfold answer
          cases hr : p.rest with
          | ret result =>
              rw [hr] at hsilent
              cases hsilent
          | _ => rfl
        exact .inr (.inr ⟨p, heq ▸ hp, rfl, hnot, .inl rfl⟩)
    · exact .inl hq
  · exact .inl hq

/-- A process that has arrived stays. -/
theorem process_stays {P' : Handlers} {l : Pool.Label Request Env Drift}
    (hs : Pool.step (serverMachine evictable) P l = some P') {pid : Nat}
    (h : P.procs pid ≠ none) :
    ∃ q, P'.procs pid = some q := by
  have hset : ∀ pid' (p : Process StorageCall StorageCall.Reply String
      (Except HandlerError Response) Request), (P.setProcess pid' p).procs pid ≠ none := by
    intro pid' p
    simp only [Pool.setProcess, Function.update_apply]
    split
    · exact fun h => by cases h
    · exact h
  refine Option.ne_none_iff_exists'.mp ?_
  rcases Pool.step_cases hs with ⟨pid', request, -, -, rfl⟩ |
    ⟨pid', choice, env, p, call, next, -, -, -, rfl⟩ |
    ⟨pid', choice, env, p, rest, held, -, -, -, rfl⟩ | ⟨d, w, -, -, rfl⟩
  · exact hset _ _
  · exact hset _ _
  · exact hset _ _
  · exact h

/-- What all requests under way and all that arrive are, all stay. -/
theorem tags_step {P' : Handlers} {T : Request → Prop} {l : Pool.Label Request Env Drift}
    (h : ∀ (pid : Nat) p, P.procs pid = some p → T p.tag)
    (hl : ∀ pid request, l = .arrive pid request → T request)
    (hs : Pool.step (serverMachine evictable) P l = some P') (pid : Nat)
    (q : Process StorageCall StorageCall.Reply String (Except HandlerError Response) Request)
    (hq : P'.procs pid = some q) : T q.tag := by
  rcases process_step hs hq with hsame | ⟨request, harrive, -, htag, -⟩ | ⟨p, hp, htag, -⟩
  · exact h pid q hsame
  · rw [htag]
    exact hl pid request harrive
  · rw [htag]
    exact h pid p hp

/-- A reply in a log was there before the step, or it is the step's own. -/
theorem replied_step {P' : Handlers} {l : Pool.Label Request Env Drift}
    (hs : Pool.step (serverMachine evictable) P l = some P') {pid : Nat} {call : StorageCall}
    {reply : call.Reply} (h : Replied (Pool.logOf pid P'.trace) call reply) :
    Replied (Pool.logOf pid P.trace) call reply ∨
      ∃ env, call.exec env P.shared = (reply, P'.shared) := by
  rcases Pool.step_cases hs with ⟨pid', tag, -, -, rfl⟩ |
    ⟨pid', choice, env, p, call', next, -, hp, hrest, rfl⟩ |
    ⟨pid', choice, env, p, rest, held, -, -, -, rfl⟩ | ⟨d, w, -, hd, rfl⟩
  · exact .inl h
  · rw [Pool.perform_trace] at h
    by_cases heq : pid' = pid
    · rw [Pool.logOf_cons_self heq] at h
      rcases List.mem_cons.mp h with hhead | htail
      · cases hhead
        exact .inr ⟨env, rfl⟩
      · exact .inl htail
    · rw [Pool.logOf_cons_ne heq] at h
      exact .inl h
  · exact .inl h
  · exact .inl h

end Sound

/-! ## Concrete runs -/

/-- A worker starts the workflow. -/
def payStart : Request := .workflowStart { workflowId := "pay", name := none }

/-- A worker asks for the lease of the first position. -/
def payLease (fencingToken : Int) : Request := .leaseCheckpoint
  { workflowId := "pay", fencingToken := fencingToken, position := 0, leaseTimeout := 30000,
    idempotencyKey := "k" }

/-- The first worker checkpoints the first position. -/
def payCheckpoint : Request := .checkpoint
  { workflowId := "pay", fencingToken := 1, position := 0, value := [1], idempotencyKey := "k" }

/-- A request arrives, and its handler makes some steps. -/
def arrives (pid : Nat) (request : Request)
    (steps : Nat) : List (Pool.Label Request Env Drift) :=
  .arrive pid request :: List.replicate steps (.advance pid true (.calm "" true))

/-- A handler makes some more steps. -/
def goesOn (pid : Nat) (steps : Nat) : List (Pool.Label Request Env Drift) :=
  List.replicate steps (.advance pid true (.calm "" true))

/-- Run labels from an empty store. -/
def runLabels (ls : List (Pool.Label Request Env Drift)) : Option Handlers :=
  exec (Pool.step (serverMachine leaseExpired)) (Pool.start (.empty 0)) ls

/-- What is computed of a run's outcome holds of it. -/
theorem eq_of_runLabels {α : Type} {ls : List (Pool.Label Request Env Drift)} {P : Handlers}
    (h : runLabels ls = some P) (f : Handlers → α) {a : α}
    (ha : (runLabels ls).map f = some a) :
    f P = a := eq_of_outcome h f ha

/-- A run splits where its labels do. -/
theorem runLabels_append {ls ls' : List (Pool.Label Request Env Drift)} {P P' : Handlers}
    (h : runLabels ls = some P) (h' : runLabels (ls ++ ls') = some P') :
    exec (Pool.step (serverMachine leaseExpired)) P ls' = some P' := exec_of_append h h'

theorem reached_of_runLabels {ls : List (Pool.Label Request Env Drift)} {P : Handlers}
    (h : runLabels ls = some P) : P.Reached leaseExpired :=
  .of_exec (.start ⟨.empty 0, rfl⟩) h

end IdempotentTransformer
