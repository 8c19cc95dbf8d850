import IdempotentTransformer.Handle

/-!
# IdempotentTransformer.Server

Runs of the server with each handler in isolation: requests of anybody, in
any order, repeated at will, with the clock advancing and the cache
dropping entries in between.

A `Server` is the stored world with the history of the requests handled.
From the history one reads off whom a position was last leased to
(`lastGrant`): the lease record itself carries no owner.

* `reachable_of_history` — every request of a history was handled in a
  reachable state;
* `row_persists` — a stored key and value stay until cleanup;
* `lastGrant_of_cache` — a cached lease is the one last granted for its
  position.
-/

namespace IdempotentTransformer

open Library

/-! ## Runs -/

/-- A handled request: what was asked, what was replied, and the world
before and after. -/
structure Handled where
  before : World
  request : Request
  reply : Except HandlerError Response
  after : World

/-- The stored world and the requests handled so far, latest first. -/
structure Server where
  world : World
  history : List Handled

inductive ServerLabel
  /-- A request arrives and is handled. -/
  | handle (request : Request) (env : Env)
  /-- The clock advances. -/
  | tick (elapsed : Nat)
  /-- The cache drops an entry. -/
  | evict (key : String)

/-- The cache may drop an entry once its time to live has passed. -/
def ttlPassed (entry : CachedLease) (now : Int) : Bool := entry.putAt + 1000 * entry.ttl ≤ now

/-- The cache drops an entry only once the lease it holds has expired. -/
def leaseExpired (entry : CachedLease) (now : Int) : Bool := decide (entry.lease.Expired now)

namespace World

/-- The clock advances. -/
def tick (w : World) (elapsed : Nat) : World := { w with now := w.now + elapsed }

/-- The cache drops an entry it may drop. -/
def evict (evictable : CachedLease → Int → Bool) (w : World) (key : String) : Option World :=
  match w.cache key with
  | some entry => if evictable entry w.now then some (w.setCache key none) else none
  | none => none

theorem evict_eq_some {evictable : CachedLease → Int → Bool} {w w' : World} {key : String}
    (h : w.evict evictable key = some w') :
    ∃ entry, w.cache key = some entry ∧ evictable entry w.now = true ∧
      w' = w.setCache key none := by
  unfold evict at h
  cases hc : w.cache key with
  | none => simp only [hc] at h; contradiction
  | some entry =>
      simp only [hc] at h
      split at h
      · next he => exact ⟨entry, rfl, he, (Option.some.inj h).symm⟩
      · contradiction

end World

namespace Server

/-- An empty store. -/
def initial (s : Server) : Prop := ∃ now, s = { world := .empty now, history := [] }

/-- Handle a request and record it. -/
def record (env : Env) (request : Request) (s : Server) : Server :=
  { world := (request.handle env s.world).2
    history :=
      { before := s.world, request := request, reply := (request.handle env s.world).1
        after := (request.handle env s.world).2 } :: s.history }

/-- One step of the server.  `evictable` says when the cache may drop an
entry. -/
def step (evictable : CachedLease → Int → Bool) : Step Server ServerLabel
  | s, .handle request env => if env.fault = .none then some (s.record env request) else none
  | s, .tick elapsed => some { s with world := s.world.tick elapsed }
  | s, .evict key => (s.world.evict evictable key).map fun w => { s with world := w }

/-- The states of the runs from an empty store. -/
def Reached (evictable : CachedLease → Int → Bool) (s : Server) : Prop :=
  Reachable (step evictable) anyStep initial s

/-- The final state of an executed list of labels is reached. -/
theorem reached_of_exec {evictable : CachedLease → Int → Bool} (now : Int)
    (ls : List ServerLabel) {s : Server}
    (h : exec (step evictable) { world := .empty now, history := [] } ls = some s) :
    s.Reached evictable :=
  .of_exec (.start ⟨now, rfl⟩) h

/-- What a step does: it handles a request, or moves the clock, or drops a
cache entry. -/
theorem step_cases {evictable : CachedLease → Int → Bool} {s s' : Server} {l : ServerLabel}
    (h : step evictable s l = some s') :
    (∃ request env, l = .handle request env ∧ env.fault = .none ∧ s' = s.record env request) ∨
      (∃ elapsed, l = .tick elapsed ∧ s' = { s with world := s.world.tick elapsed }) ∨
      ∃ key entry, l = .evict key ∧ s.world.cache key = some entry ∧
        evictable entry s.world.now = true ∧
        s' = { s with world := s.world.setCache key none } := by
  cases l with
  | handle request env =>
      simp only [step] at h
      split at h
      · next hf => exact .inl ⟨request, env, rfl, hf, (Option.some.inj h).symm⟩
      · contradiction
  | tick elapsed => exact .inr (.inl ⟨elapsed, rfl, (Option.some.inj h).symm⟩)
  | evict key =>
      simp only [step, Option.map_eq_some_iff] at h
      obtain ⟨w, hw, rfl⟩ := h
      obtain ⟨entry, hc, he, rfl⟩ := World.evict_eq_some hw
      exact .inr (.inr ⟨key, entry, rfl, hc, he, rfl⟩)

section Reached

variable {evictable : CachedLease → Int → Bool} {s : Server}

/-! ### reading a history -/

/-- Every request of a history was handled in a state the same run reached. -/
theorem reachable_of_history (hr : Reached evictable s)
    {later earlier : List Handled} {h : Handled} (hh : s.history = later ++ h :: earlier) :
    Reached evictable { world := h.before, history := earlier } ∧
      ∃ env, env.fault = .none ∧ (h.reply, h.after) = h.request.handle env h.before := by
  induction hr generalizing later with
  | start hi =>
      obtain ⟨now, rfl⟩ := hi
      simp at hh
  | @step t t' l ht _ hs ih =>
      rcases step_cases hs with
        ⟨request, env, rfl, hf, rfl⟩ | ⟨elapsed, rfl, rfl⟩ | ⟨key, entry, rfl, -, -, rfl⟩
      · cases later with
        | nil =>
            simp only [record, List.nil_append, List.cons.injEq] at hh
            obtain ⟨rfl, rfl⟩ := hh
            exact ⟨ht, env, hf, rfl⟩
        | cons g later =>
            simp only [record, List.cons_append, List.cons.injEq] at hh
            exact ih hh.2
      · exact ih hh
      · exact ih hh

/-- **A stored key and value stay until cleanup**: what a handled request
leaves in a row is still there after any later requests but cleanup. -/
theorem row_persists (hr : Reached evictable s) {later earlier : List Handled} {h : Handled}
    (hh : s.history = later ++ h :: earlier) (hu : ∀ g ∈ later, g.request ≠ .cleanUp)
    {workflowId : String} {position : Int} {row : Checkpoint}
    (hrow : h.after.checkpoints workflowId position = some row) :
    ∃ createdAt, s.world.checkpoints workflowId position =
      some { row with createdAt := createdAt } := by
  induction hr generalizing later with
  | start hi =>
      obtain ⟨now, rfl⟩ := hi
      simp at hh
  | @step t t' l ht _ hs ih =>
      rcases step_cases hs with
        ⟨request, env, rfl, hf, rfl⟩ | ⟨elapsed, rfl, rfl⟩ | ⟨key, entry, rfl, -, -, rfl⟩
      · cases later with
        | nil =>
            simp only [record, List.nil_append, List.cons.injEq] at hh
            obtain ⟨rfl, rfl⟩ := hh
            exact ⟨row.createdAt, hrow⟩
        | cons g later =>
            simp only [record, List.cons_append, List.cons.injEq] at hh
            obtain ⟨rfl, hh⟩ := hh
            obtain ⟨createdAt, hc⟩ := ih hh fun g' hg' => hu g' (List.mem_cons_of_mem _ hg')
            have hne : request ≠ .cleanUp := hu _ List.mem_cons_self
            exact handle_row_persists hf t.world hne hc |>.imp fun createdAt' h' => h'
      · exact ih hh hu
      · exact ih hh hu

end Reached

end Server

/-! ## Grants -/

/-- The token and the lease a handled request was granted for a position. -/
def Handled.grant (h : Handled) (workflowId : String) (position : Int) :
    Option (Int × LeasedCheckpointValue) :=
  match h.request with
  | .leaseCheckpoint data =>
    if data.workflowId = workflowId ∧ data.position = position ∧ h.reply = granted then
      some (data.fencingToken, (grantedLease data.leaseTimeout h.before.now).lease)
    else none
  | _ => none

/-- A request for another position, or one not granted, grants a position
nothing. -/
theorem Handled.grant_eq_none_of_ne {h : Handled} {workflowId : String} {position : Int}
    (hno : h.request.leasePosition = some (workflowId, position) →
      h.request.endsLease = false ∧ h.reply ≠ granted) :
        h.grant workflowId position = none := by
  unfold grant
  split
  · next data hd =>
      rw [if_neg]
      rintro ⟨rfl, rfl, hg⟩
      exact (hno (by rw [hd]; rfl)).2 hg
  · rfl

/-- The grant of a position handled last, with the token it was given to. -/
def lastGrant (history : List Handled) (workflowId : String) (position : Int) :
    Option (Int × LeasedCheckpointValue) :=
  history.findSome? fun h => h.grant workflowId position

/-- The lease of a position granted last to one token. -/
def lastGrantTo (history : List Handled) (workflowId : String) (position token : Int) :
    Option LeasedCheckpointValue :=
  history.findSome? fun h =>
    ((h.grant workflowId position).filter fun grant => grant.1 = token).map Prod.snd

namespace Server

variable {evictable : CachedLease → Int → Bool} {s : Server}

/-- **A cached lease is the one granted last** for its position. -/
theorem lastGrant_of_cache (hr : Reached evictable s) {workflowId : String} {position : Int}
    {leased : LeasedCheckpointValue} (hl : s.world.leaseAt workflowId position = some leased) :
    ∃ token, lastGrant s.history workflowId position = some (token, leased) := by
  induction hr generalizing leased with
  | start hi =>
      obtain ⟨now, rfl⟩ := hi
      simp [World.leaseAt, World.empty] at hl
  | @step t t' l ht _ hs ih =>
      rcases step_cases hs with
        ⟨request, env, rfl, hf, rfl⟩ | ⟨elapsed, rfl, rfl⟩ | ⟨key, entry, rfl, -, -, rfl⟩
      · simp only [World.leaseAt, record] at hl
        rcases handle_cache_cases hf t.world request workflowId position with
          ⟨-, -, hc⟩ | ⟨data, rfl, rfl, rfl, hg, hc⟩ | ⟨hc, hno⟩
        · rw [hc] at hl; contradiction
        · rw [hc, Option.map_some, Option.some.injEq] at hl
          exact ⟨data.fencingToken, by simp [lastGrant, record, Handled.grant, hg, hl]⟩
        · rw [hc] at hl
          obtain ⟨token, hlast⟩ := ih hl
          refine ⟨token, ?_⟩
          rw [lastGrant, record, List.findSome?_cons]
          rw [Handled.grant_eq_none_of_ne hno]
          exact hlast
      · exact ih hl
      · simp only [World.leaseAt, World.setCache_cache] at hl
        split at hl
        · contradiction
        · exact ih hl

end Server

end IdempotentTransformer
