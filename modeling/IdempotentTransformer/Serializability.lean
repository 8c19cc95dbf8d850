import Mathlib.Data.List.Forall2
import IdempotentTransformer.Liveness
import IdempotentTransformer.Orphans

/-!
# IdempotentTransformer.Serializability

The server one storage call at a time and the server one request at a time
(`Server`) agree wherever requests do not overlap.

* `workflow_serializable` — it is enough that the requests of *one workflow*
  overlap neither each other nor the clock, and that none of their calls and
  locks fails: whatever is going on for the others, its replies and its rows
  are those of a `Server` that is sent its requests alone;
* `server_iff_one_at_a_time` — and where that holds of all requests and all of
  them are answered, the two have the same runs, so nothing that is proved of
  the one is missed by the other.

This is what carries the results about handlers in isolation over to
handlers that take turns.
-/

namespace IdempotentTransformer

open Library

/-! ## The two servers -/

/-- The steps of a server that an observer sees. -/
def ServerLabel.Among (mine : Request → Bool) (seen : Drift → Bool) : ServerLabel → Prop
  | .handle request _ => mine request = true
  | .tick elapsed => seen (.tick elapsed) = true
  | .evict key => seen (.evict key) = true

/-- The runs of a server from a stored world, in the steps of an observer. -/
def Server.RunOf (evictable : CachedLease → Int → Bool) (mine : Request → Bool)
    (seen : Drift → Bool) (w : World) (s : Server) : Prop :=
  Reachable (step evictable) (fun _ l => l.Among mine seen)
    (· = { world := w, history := [] }) s

/-- The answered requests of some processes are a server's history. -/
def Handlers.Recounts (P : Handlers) (pids : List Nat) (history : List Handled) : Prop :=
  List.Forall₂ (fun pid h => ∃ p, P.procs pid = some p ∧ p.tag = h.request ∧
    answer p = some h.reply) pids history

/-- The server as somebody sees it who sees everything. -/
def wholeView (evictable : CachedLease → Int → Bool) : View (serverMachine evictable) where
  mine _ := true
  seen _ := true
  own _ := True
  near _ := True
  foreign _ := False
  far _ := False
  Agree := Eq
  near_far _ _ h := h
  confined_own request _ := request.confined.mono (fun _ _ => trivial) fun _ _ => trivial
  confined_foreign _ h := by contradiction
  exec_own _ _ _ _ _ h := by rw [h]; exact ⟨rfl, rfl⟩
  exec_foreign _ _ _ _ h := h.elim
  drift_seen _ _ _ t _ h hd := ⟨t, h ▸ hd, rfl⟩
  drift_unseen _ _ _ _ h := by contradiction

/-! ## From one to the other -/

section

variable {evictable : CachedLease → Int → Bool} {mine : Request → Bool} {seen : Drift → Bool}
  {envs : Nat → Env} {w t : World} {done : List (Done (Except HandlerError Response) Request)}

/-- The serial runs of the handlers are runs of the server. -/
private theorem server_of_serially (henvs : ∀ pid, (envs pid).fault = .none)
    (h : Serially (serverMachine evictable) envs mine seen w done t) :
    ∃ s, Server.RunOf evictable mine seen w s ∧ s.world = t ∧
      List.Forall₂ (fun d h => d.tag = h.request ∧ d.result = h.reply) done s.history := by
  induction h with
  | start => exact ⟨_, .start rfl, rfl, .nil⟩
  | @handle done t _ pid request hmine ih =>
      obtain ⟨s, hs, rfl, hhistory⟩ := ih
      refine ⟨s.record (envs pid) request,
        .step (l := .handle request (envs pid)) hs hmine ?_, rfl, .cons ⟨rfl, rfl⟩ hhistory⟩
      simp only [Server.step, henvs pid, if_true]
  | @drift done t t' _ d hseen hd ih =>
      obtain ⟨s, hs, rfl, hhistory⟩ := ih
      cases d with
      | tick elapsed =>
          cases hd
          exact ⟨_, .step (l := .tick elapsed) hs hseen rfl, rfl, hhistory⟩
      | evict key =>
          have hevict : s.world.evict evictable key = some t' := hd
          refine ⟨{ s with world := t' }, .step (l := .evict key) hs hseen ?_, rfl, hhistory⟩
          simp only [Server.step, hevict, Option.map_some]

/-- The runs of the server are serial runs of the handlers, numbered in the order
of their arrival. -/
private theorem serially_of_server {s : Server} (hs : Server.RunOf evictable mine seen w s) :
    ∃ (envs : Nat → Env) (done : List (Done (Except HandlerError Response) Request)),
      (∀ pid, (envs pid).fault = .none) ∧
      Serially (serverMachine evictable) envs mine seen w done s.world ∧
      done.map Done.pid = (List.range done.length).reverse ∧
      List.Forall₂ (fun d h => d.tag = h.request ∧ d.result = h.reply) done s.history := by
  induction hs with
  | start h =>
      cases h
      exact ⟨fun _ => .calm "" true, [], fun _ => rfl, .start, rfl, .nil⟩
  | @step s s' l _ hok hstep ih =>
      obtain ⟨envs, done, henvs, hserially, hpids, hhistory⟩ := ih
      rcases Server.step_cases hstep with
        ⟨request, env, rfl, hf, rfl⟩ | ⟨elapsed, rfl, rfl⟩ | ⟨key, entry, rfl, hc, he, rfl⟩
      · have hold : ∀ d ∈ done, envs d.pid = Function.update envs done.length env d.pid := by
          intro d hd
          have hmem : d.pid ∈ done.map Done.pid := List.mem_map_of_mem hd
          rw [hpids, List.mem_reverse, List.mem_range] at hmem
          rw [Function.update_of_ne (by omega)]
        have hrun := (hserially.congr hold).handle done.length hok
        rw [Function.update_self] at hrun
        refine ⟨_, _, fun pid => ?_, hrun, ?_, .cons ⟨rfl, rfl⟩ hhistory⟩
        · rw [Function.update_apply]
          split
          · exact hf
          · exact henvs pid
        · simp [hpids, List.range_succ]
      · exact ⟨envs, done, henvs, hserially.drift (d := .tick elapsed) hok rfl, hpids, hhistory⟩
      · refine ⟨envs, done, henvs, hserially.drift (d := .evict key) hok ?_, hpids, hhistory⟩
        show s.world.evict evictable key = _
        simp only [World.evict, hc, he, if_true]

/-- The processes that are over recount the history. -/
private theorem recounts_of_finished {P : Handlers} {history : List Handled}
    (hfinished : ∀ d ∈ done, ∃ p, P.procs d.pid = some p ∧ p.tag = d.tag ∧
      p.rest = .ret d.result)
    (hhistory : List.Forall₂ (fun d h => d.tag = h.request ∧ d.result = h.reply) done history) :
    P.Recounts (done.map Done.pid) history := by
  rw [Handlers.Recounts, List.forall₂_map_left_iff]
  have hboth := List.forall₂_and_left done history |>.mpr ⟨hfinished, hhistory⟩
  refine hboth.imp ?_
  rintro d h ⟨⟨p, hp, htag, hrest⟩, hrequest, hreply⟩
  exact ⟨p, hp, htag.trans hrequest, answer_eq_some.mpr (hreply ▸ hrest)⟩

/-- What an observer sees whose requests do not overlap. -/
private theorem serializable_to (V : View (serverMachine evictable))
    (hrefl : V.Agree w w) (henvs : ∀ pid, (envs pid).fault = .none) {P : Handlers}
    (hr : Reachable (Pool.step (serverMachine evictable)) (V.OneAtATime envs)
      (· = Pool.start w) P)
    (hidle : ¬ V.Busy P) :
    ∃ (s : Server) (pids : List Nat), Server.RunOf evictable V.mine V.seen w s ∧
      V.Agree P.shared s.world ∧ pids.Nodup ∧
      (∀ pid, pid ∈ pids ↔ ∃ p, P.procs pid = some p ∧ V.mine p.tag = true) ∧
      P.Recounts pids s.history := by
  have hdecided : ∀ pid request, V.mine request = true →
      ((serverMachine evictable).program request).Decided
        ((serverMachine evictable).exec (envs pid)) :=
    fun pid request _ => request.ends.decided (envs pid)
  obtain ⟨done, t, hserially, hagree, hnodup, hfinished, hall⟩ :=
    View.serial_run hdecided hrefl hr hidle
  obtain ⟨s, hs, rfl, hhistory⟩ := server_of_serially henvs hserially
  refine ⟨s, done.map Done.pid, hs, hagree, hnodup, fun pid => ⟨fun hmem => ?_, ?_⟩,
    recounts_of_finished hfinished hhistory⟩
  · obtain ⟨d, hd, rfl⟩ := List.mem_map.mp hmem
    obtain ⟨p, hp, htag, -⟩ := hfinished d hd
    exact ⟨p, hp, htag ▸ hserially.mine d hd⟩
  · rintro ⟨p, hp, hconcerns⟩
    obtain ⟨d, hd, rfl⟩ := hall pid p hp hconcerns
    exact List.mem_map_of_mem hd

/-- Nobody an observer sees is under way if all it sees have been answered. -/
private theorem not_busy_of_answered {V : View (serverMachine evictable)} {P : Handlers}
    (h : ∀ pid p, P.procs pid = some p → V.mine p.tag = true →
      answer p ≠ none) : ¬ V.Busy P := by
  rintro ⟨pid, p, hp, hmine, hret⟩
  exact h pid p hp hmine (answer_eq_none_iff.mpr hret)

end

/-! ## Serializability -/

/-- The requests that concern a workflow do not overlap each other, the clock
or the dropping of its leases; their calls go as `envs` says, and none of their
locks fails. -/
def Handlers.OneAtATimeFor (evictable : CachedLease → Int → Bool) (id : String)
    (envs : Nat → Env) :
    Handlers → Pool.Label Request Env Drift → Prop :=
  (workflowView evictable id).OneAtATime envs

/-- No request overlaps another, the clock or the dropping of a lease; their calls
go as `envs` says, and no lock fails. -/
def Handlers.OneAtATime (evictable : CachedLease → Int → Bool) (envs : Nat → Env) :
    Handlers → Pool.Label Request Env Drift → Prop :=
  (wholeView evictable).OneAtATime envs

section

variable {evictable : CachedLease → Int → Bool} {id : String} {envs : Nat → Env} {w : World}
  {P : Handlers}

/-- **Serializability, workflow by workflow.**  If the requests of a workflow do
not overlap each other, cleanup, the clock or the dropping of its leases, and
their own calls and locks succeed, then once they are all answered, they have
been answered as by a server that was sent them alone, one after the other, and
the workflow's rows, token and leases are as there.  The requests for all other
workflows may be anywhere in the middle of theirs, and their calls may have
failed. -/
theorem workflow_serializable (henvs : ∀ pid, (envs pid).fault = .none)
    (hr : Reachable (Pool.step (serverMachine evictable))
      (Handlers.OneAtATimeFor evictable id envs) (· = Pool.start w) P)
    (hanswered : ∀ pid p, P.procs pid = some p → p.tag.concerns id = true → answer p ≠ none) :
    ∃ (s : Server) (pids : List Nat),
      Server.RunOf evictable (Request.concerns id) (Drift.concerns id) w s ∧
      P.shared.Alike id s.world ∧ pids.Nodup ∧
      (∀ pid, pid ∈ pids ↔ ∃ p, P.procs pid = some p ∧ p.tag.concerns id = true) ∧
      P.Recounts pids s.history :=
  serializable_to (workflowView evictable id) (World.Alike.refl w) henvs hr
    (not_busy_of_answered hanswered)

/-- A workflow is started, and in the middle of that another one. -/
def startsWithin : List (Pool.Label Request Env Drift) :=
  arrives 0 payStart 2 ++ arrives 1 (.workflowStart { workflowId := "trip", name := none }) 2 ++
    goesOn 0 3

theorem started_within_serializable :
    ∃ (P : Handlers) (s : Server) (pids : List Nat), runLabels startsWithin = some P ∧
      (P.procs 1).map answer = some none ∧
      Server.RunOf leaseExpired (Request.concerns "pay") (Drift.concerns "pay") (.empty 0) s ∧
      P.shared.Alike "pay" s.world ∧ P.Recounts pids s.history := by
  obtain ⟨P, h⟩ : ∃ P, runLabels startsWithin = some P := Option.isSome_iff_exists.mp rfl
  have hrest : ∀ l ∈ startsWithin.tail, ∀ Q : Handlers,
      Handlers.OneAtATimeFor leaseExpired "pay" (fun _ => .calm "" true) Q l := by
    intro l hl Q
    simp only [startsWithin, arrives, goesOn, List.replicate, List.cons_append, List.nil_append,
      List.tail_cons, List.mem_cons, List.not_mem_nil, or_false] at hl
    rcases hl with rfl | rfl | rfl | rfl | rfl | rfl | rfl | rfl
    case inr.inr.inl => exact fun hmine => absurd hmine (by decide)
    all_goals exact fun p _ _ => ⟨rfl, fun _ _ _ => rfl⟩
  have hr : Reachable (Pool.step (serverMachine leaseExpired))
      (Handlers.OneAtATimeFor leaseExpired "pay" fun _ => .calm "" true)
      (· = Pool.start (World.empty 0)) P := by
    have hstart : Handlers.OneAtATimeFor leaseExpired "pay" (fun _ => .calm "" true)
        (Pool.start (World.empty 0)) (.arrive 0 payStart) := by
      rintro - ⟨pid, p, hp, -⟩
      cases hp
    have hrun : exec (Pool.step (serverMachine leaseExpired)) (Pool.start (World.empty 0))
        (.arrive 0 payStart :: startsWithin.tail) = some P := h
    rw [exec, Option.bind_eq_some_iff] at hrun
    obtain ⟨P₀, hs, he⟩ := hrun
    exact .of_exec_all (.step (.start rfl) hstart hs) hrest he
  have hanswers := eq_of_runLabels h (fun P => ((P.procs 0).map fun p => (answer p).isSome,
    (P.procs 1).map answer)) (a := (some true, some none)) rfl
  rw [Prod.mk.injEq] at hanswers
  have hanswered : ∀ pid p, P.procs pid = some p → p.tag.concerns "pay" = true →
    answer p ≠ none := by
    intro pid p hp hmine
    by_cases hpid : pid = 0
    · subst hpid
      rw [hp, Option.map_some, Option.some.injEq] at hanswers
      exact Option.isSome_iff_ne_none.mp hanswers.1
    · by_cases hother : pid = 1
      · have htag := eq_of_runLabels h (fun P => (P.procs 1).map fun p => p.tag.concerns "pay")
          (a := some false) rfl
        rw [← hother, hp, Option.map_some, Option.some.injEq, hmine] at htag
        contradiction
      · have hnever : P.procs pid = none :=
          not_arrived rfl
            (fun request => by simp [startsWithin, arrives, goesOn, hpid, hother]) h
        rw [hnever] at hp
        contradiction
  obtain ⟨s, pids, hs, halike, -, -, hrecounts⟩ :=
    workflow_serializable (fun _ => rfl) hr hanswered
  exact ⟨P, s, pids, h, hanswers.2, hs, halike, hrecounts⟩

/-- **The two servers are one where nothing overlaps.**  Take the runs in which
no request overlaps another, the clock or the dropping of a lease, and no call
and no lock fails.  Once all requests of such a run are answered, it has done
what a run of the server one request at a time does; and every run of that
server is done by the handlers in such a run. -/
theorem server_iff_one_at_a_time (evictable : CachedLease → Int → Bool) (w : World) :
    (∀ envs : Nat → Env, (∀ pid, (envs pid).fault = .none) → ∀ P : Handlers,
      Reachable (Pool.step (serverMachine evictable)) (Handlers.OneAtATime evictable envs)
        (· = Pool.start w) P →
      (∀ pid p, P.procs pid = some p → answer p ≠ none) →
      ∃ (s : Server) (pids : List Nat),
        Reachable (Server.step evictable) anyStep (· = { world := w, history := [] }) s ∧
        P.shared = s.world ∧ pids.Nodup ∧ (∀ pid, pid ∈ pids ↔ ∃ p, P.procs pid = some p) ∧
        P.Recounts pids s.history) ∧
    ∀ s : Server,
      Reachable (Server.step evictable) anyStep (· = { world := w, history := [] }) s →
      ∃ (envs : Nat → Env) (P : Handlers) (pids : List Nat), (∀ pid, (envs pid).fault = .none) ∧
        Reachable (Pool.step (serverMachine evictable)) (Handlers.OneAtATime evictable envs)
          (· = Pool.start w) P ∧
        P.shared = s.world ∧ pids.Nodup ∧ (∀ pid, pid ∈ pids ↔ ∃ p, P.procs pid = some p) ∧
        P.Recounts pids s.history := by
  constructor
  · intro envs henvs P hr hanswered
    obtain ⟨s, pids, hs, hagree, hnodup, hpids, hrecounts⟩ :=
      serializable_to (wholeView evictable) rfl henvs hr
        (not_busy_of_answered fun pid p hp _ => hanswered pid p hp)
    have hall : ∀ pid, pid ∈ pids ↔ ∃ p, P.procs pid = some p := by
      intro pid
      rw [hpids pid]
      exact ⟨fun ⟨p, hp, _⟩ => ⟨p, hp⟩, fun ⟨p, hp⟩ => ⟨p, hp, rfl⟩⟩
    exact ⟨s, pids, hs.mono fun _ _ _ => trivial, hagree, hnodup, hall, hrecounts⟩
  · intro s hs
    have hrun : Server.RunOf evictable (fun _ => true) (fun _ => true) w s :=
      hs.mono fun _ l _ => by cases l <;> rfl
    obtain ⟨envs, done, henvs, hserially, hpids, hhistory⟩ := serially_of_server hrun
    have hnodup : (done.map Done.pid).Nodup := by
      rw [hpids, List.nodup_reverse]
      exact List.nodup_range
    obtain ⟨P, hr, hshared, -, hfinished, harrived⟩ := View.exists_run
      (V := wholeView evictable) (fun request => request.ends.locks) hserially hnodup
    refine ⟨envs, P, done.map Done.pid, henvs, hr, hshared, hnodup,
      fun pid => ⟨fun hmem => ?_, ?_⟩, recounts_of_finished hfinished hhistory⟩
    · obtain ⟨d, hd, rfl⟩ := List.mem_map.mp hmem
      obtain ⟨p, hp, -⟩ := hfinished d hd
      exact ⟨p, hp⟩
    · rintro ⟨p, hp⟩
      obtain ⟨d, hd, rfl⟩ := harrived pid p hp
      exact List.mem_map_of_mem hd

end

end IdempotentTransformer
