import IdempotentTransformer.Replay
import IdempotentTransformer.Guard

/-!
# IdempotentTransformer.Recovery

Recovery by replay: once a result is stored, no later attempt runs the step
again, and every later visit returns that result.

Besides what later attempts find (`Replay`), a run keeps that a result is lost
only by a cut (`Pending`), and that an attempt ends a body once (`Visits`).
-/

namespace IdempotentTransformer

open Library

namespace Attempts

variable {V : Type}

/-! ## Results that are lost -/

/-- A leaf's call still waits for the acknowledgement of `v`. -/
def Waiting (s : Attempts V) (workflowId : String) (position : Int) (v : V) : Prop :=
  ∃ f a, s.Executing f a ∧ a.isLeaf = true ∧ f.runner.workflowId = workflowId ∧
    f.runner.position = position ∧ a.phase.taskResult? = some (.ok v)

/-- A leaf's result is stored unless it waits, or was cut while it did. -/
structure Pending (s : Attempts V) : Prop where
  /-- An acknowledged checkpoint has left a row. -/
  acknowledged : ∀ m ∈ s.sent, ∀ data output, m.request = .checkpoint data →
    m.reply = some (.ok (.checkpoint output)) →
    ∃ row, s.world.checkpoints data.workflowId data.position = some row
  /-- A leaf does not compensate: its checkpoint is answered in time. -/
  forward : ∀ f a, s.Executing f a → a.isLeaf = true → a.phase.compensating = false
  kept : ∀ k workflowId position v, s.Logged k workflowId position (.completed true v) →
    s.Logged k workflowId position .cut ∨
      (∃ k' value, k' ≤ k ∧ s.Logged k' workflowId position (.stored value)) ∨
      (k = s.attempt ∧ s.Waiting workflowId position v)

section Pending

variable {serializer : Serializer V} {key : String → Int → String}
  {evictable : CachedLease → Int → Bool} {wire : Wire} {s s' : Attempts V} {l : AttemptLabel V}

theorem pending_initial (h : s.initial) : s.Pending := by
  obtain ⟨now, rfl⟩ := h
  constructor <;> simp [Logged, Executing]

/-- A state with the same log and rows, whose leaf calls with a result are the
old ones. -/
theorem Pending.of_frames (h : s.Pending) {frames : List (Frame V)}
    {opening : Option (Nat × StartCall × Steps)} {sent : List Message}
    (hsent : ∀ m ∈ sent, m ∈ s.sent ∨ m.reply = none)
    (hexec : ∀ f a, f ∈ frames → f.status = .executing a → a.isLeaf = true →
      s.Executing f a ∨ a.phase.compensating = false)
    (hkept : ∀ f a, s.Executing f a → a.isLeaf = true →
      (∃ v, a.phase.taskResult? = some (.ok v)) →
      f ∈ frames) :
    ({ s with frames := frames, opening := opening, sent := sent } : Attempts V).Pending := by
  constructor
  case acknowledged =>
    intro m hm data output hdata hreply
    rcases hsent m hm with hold | hnone
    · exact h.acknowledged m hold data output hdata hreply
    · rw [hnone] at hreply
      contradiction
  case forward =>
    intro f a he hleaf
    rcases hexec f a he.1 he.2 hleaf with hold | hforward
    · exact h.forward f a hold hleaf
    · exact hforward
  case kept =>
    intro k workflowId position v hcompleted
    rcases h.kept k workflowId position v hcompleted with hcut | hstored | ⟨hk, hwaiting⟩
    · exact .inl hcut
    · exact .inr (.inl hstored)
    · obtain ⟨f, a, he, hleaf, hw, hp, hresult⟩ := hwaiting
      exact .inr (.inr ⟨hk, f, a, ⟨hkept f a he hleaf ⟨v, hresult⟩, he.2⟩, hleaf,
        hw, hp, hresult⟩)

/-- A call with a result is not the innermost frame's. -/
theorem mem_of_result {f : Frame V} {fs : List (Frame V)} (hs : s.frames = f :: fs)
    (hnone : ∀ a, f.status = .executing a → a.phase.taskResult? = none) {f' : Frame V}
    {a' : Activity V} (he : s.Executing f' a')
    (hresult : ∃ v, a'.phase.taskResult? = some (.ok v)) :
    f' ∈ fs := by
  obtain ⟨hmem, hstatus⟩ := he
  rw [hs] at hmem
  rcases List.mem_cons.mp hmem with rfl | hmem
  · obtain ⟨v, hresult⟩ := hresult
    rw [hnone a' hstatus] at hresult
    contradiction
  · exact hmem

theorem pending_left (h : s.Pending) {result : Except Thrown V} (hl : Left s result s') :
    s'.Pending := by
  rcases hl.cases with ⟨f, fs, hs, hnone, rfl⟩ | rfl
  · refine h.of_frames (fun _ hm => .inl hm) ?_ ?_
    · exact fun f' a' hf' hstatus _ => .inl ⟨mem_tail hs hf', hstatus⟩
    · exact fun f' a' he _ hresult => mem_of_result hs hnone he hresult
  · exact h.of_frames (fun _ hm => .inl hm) (fun f' a' hf' hstatus _ => .inl ⟨hf', hstatus⟩)
      fun f' a' he _ _ => he.1

theorem pending_answer (h : s.Pending) (hg : s.Grounded key) {env : Env}
    (hf : env.fault = .none) {n : Nat} {m : Message}
    (hn : s.sent[n]? = some m) : (s.answer env n m).Pending := by
  have hclean := not_cleanUp_of_keyedBy (hg.sent m (List.mem_of_getElem? hn))
  constructor
  case acknowledged =>
    intro m' hm' data output hdata hreply
    rcases List.mem_or_eq_of_mem_set hm' with hold | rfl
    · obtain ⟨row, hrow⟩ := h.acknowledged m' hold data output hdata hreply
      obtain ⟨createdAt, hnew⟩ := handle_row_persists hf s.world hclean hrow
      exact ⟨_, hnew⟩
    · have hdata : m.request = .checkpoint data := hdata
      have hreply := Option.some.inj hreply
      rw [hdata] at hreply
      have hrow := handle_checkpoint_checkpoints hf s.world data
      rw [if_pos ⟨output.abort, hreply⟩] at hrow
      rw [← hdata] at hrow
      exact ⟨_, hrow⟩
  case forward => exact h.forward
  case kept =>
    intro k workflowId position v hcompleted
    have hlogged : ∀ {k workflowId position fact}, s.Logged k workflowId position fact →
        (s.answer env n m).Logged k workflowId position fact :=
      fun hold => logged_answer.mpr (.inr hold)
    rcases logged_answer.mp hcompleted with ⟨-, value, heq, -⟩ | hold
    · contradiction
    · rcases h.kept k workflowId position v hold with
        hcut | ⟨k', value, hle, hstored⟩ | hwaiting
      · exact .inl (hlogged hcut)
      · exact .inr (.inl ⟨k', value, hle, hlogged hstored⟩)
      · exact .inr (.inr hwaiting)

/-- A leaf's result waits on, or is stored. -/
theorem waiting_turned (h : s.Pending) (hg : s.Grounded key) (hr : s.Replays serializer)
    {f : Frame V} {fs : List (Frame V)} {a : Activity V} {input : Input V} {turn : Turn V}
    (hs : s.frames = f :: fs) (hf : f.status = .executing a) (hi : s.Caused input)
    (hallowed : s.Allowed serializer input)
    (ht : a.execute.resume f.runner a.phase input = some turn) (hleaf : a.isLeaf = true) {v : V}
    (hresult : a.phase.taskResult? = some (.ok v)) :
    turn.phase.taskResult? = some (.ok v) ∨ ∃ k' value, k' ≤ s.attempt ∧
      s.Logged k' f.runner.workflowId f.runner.position (.stored value) := by
  have he : s.Executing f a := ⟨mem_head hs, hf⟩
  have hc := current_eq hs hf
  obtain ⟨hlate, hserialized⟩ := hallowed.timely a hc hleaf
  rcases ExecuteCall.result_kept ht hresult (h.forward f a he hleaf) hlate hserialized with
    hwaits | ⟨leaseExpiry, value, abort, now, hphase, rfl⟩
  · exact .inl hwaits
  · right
    have hcalling : a.phase.calling = true := by
      rw [hphase]
      rfl
    obtain ⟨m, hm, hplace, -, hreplied | ⟨-, err, now, heq⟩⟩ :=
      awaited_reply hr he hc hi ht hcalling
    · obtain ⟨reply, result, now, hreply, hsettle, heq⟩ := hreplied
      cases heq
      rw [GrpcAdapter.settle_checkpoint hsettle] at hreply
      have hfits := hr.fits m hm _ hreply
      cases hrequest : m.request with
      | checkpoint data =>
          rw [hrequest, Request.leasePosition, Option.some.injEq, Prod.mk.injEq] at hplace
          obtain ⟨row, hrow⟩ := h.acknowledged m hm data _ hrequest hreply
          rw [hplace.1, hplace.2] at hrow
          obtain ⟨-, k', found, -, hstored⟩ := hg.rows _ _ row hrow
          exact ⟨k', found, hg.attempts _ _ _ _ hstored, hstored⟩
      | _ =>
          rw [hrequest] at hfits
          exact absurd hfits id
    · cases heq

theorem pending_turned (h : s.Pending) (hg : s.Grounded key) (hr : s.Replays serializer)
    {input : Input V} (hi : s.Caused input) (hallowed : s.Allowed serializer input)
    (ht : Turned wire s input s') : s'.Pending := by
  cases ht with
  | @intro f fs a turn hs hf ht =>
      have ha := ExecuteCall.resume_cases ht
      have he : s.Executing f a := ⟨mem_head hs, hf⟩
      have hlogged : ∀ {k workflowId position fact}, s.Logged k workflowId position fact →
          (s.take wire f fs a input turn).Logged k workflowId position fact :=
        fun hold => logged_take.mpr (.inr hold)
      -- The call itself, where it still has a result.
      have hself : ∀ {v}, a.isLeaf = true → turn.phase.taskResult? = some (.ok v) →
          (s.take wire f fs a input turn).Waiting f.runner.workflowId f.runner.position v := by
        intro v hleaf hresult
        have hreturned : ∀ w, turn.phase ≠ .returned w := by
          intro w heq
          rw [heq] at hresult
          contradiction
        have hrunner : turn.runner = f.runner := by
          rcases ha.runner_eq with hrunner | ⟨-, w, hw⟩
          · exact hrunner
          · exact absurd hw (hreturned w)
        refine ⟨_, { a with phase := turn.phase
                            awaiting := turn.call.map fun _ => s.sent.length },
          ⟨List.mem_cons_self, ?_⟩, hleaf, ?_, ?_, hresult⟩
        · unfold statusAfter
          split
          · next w hw => exact absurd hw (hreturned w)
          · rfl
        · exact congrArg Runner.workflowId hrunner
        · exact congrArg Runner.position hrunner
      constructor
      case acknowledged =>
        intro m hm data output hdata hreply
        rcases List.mem_append.mp hm with hm | hm
        · exact h.acknowledged m hm data output hdata hreply
        · obtain ⟨call, -, rfl⟩ := mem_message hm
          contradiction
      case forward =>
        intro f' a' he' hleaf
        rcases executing_take hs ha he' with ⟨-, -, rfl⟩ | he'
        · by_contra hcompensating
          have hcompensating : turn.phase.compensating = true := by simpa using hcompensating
          rcases ExecuteCall.compensating_cases ht hcompensating with hrolls | hbefore
          · exact (hallowed.timely a (current_eq hs hf) hleaf).1 hrolls.1
          · rw [h.forward f a he hleaf] at hbefore
            contradiction
        · exact h.forward f' a' he' hleaf
      case kept =>
        intro k workflowId position v hcompleted
        rcases logged_take.mp hcompleted with ⟨rfl, rfl, rfl, hfact⟩ | hold
        · rcases facts_cases hfact with
            ⟨v', -, heq⟩ | ⟨b, -, -, heq⟩ | ⟨b, v', hrunning, rfl, heq⟩
          · contradiction
          · contradiction
          · rw [Fact.completed.injEq] at heq
            obtain ⟨hleaf, rfl⟩ := heq
            refine .inr (.inr ⟨rfl, hself hleaf.symm ?_⟩)
            rw [hrunning] at ht
            cases ht
            rfl
        · rcases h.kept k workflowId position v hold with hcut | ⟨k', value, hle, hstored⟩ |
            ⟨rfl, f', a', he', hleaf, rfl, rfl, hresult⟩
          · exact .inl (hlogged hcut)
          · exact .inr (.inl ⟨k', value, hle, hlogged hstored⟩)
          · obtain ⟨hmem, hstatus⟩ := he'
            rw [hs] at hmem
            rcases List.mem_cons.mp hmem with rfl | hmem
            · rw [hf, Progress.executing.injEq] at hstatus
              subst hstatus
              rcases waiting_turned h hg hr hs hf hi hallowed ht hleaf hresult with
                hwaits | ⟨k', value, hle, hstored⟩
              · exact .inr (.inr ⟨rfl, hself hleaf hwaits⟩)
              · exact .inr (.inl ⟨k', value, hle, hlogged hstored⟩)
            · exact .inr (.inr ⟨rfl, f', a', ⟨List.mem_cons_of_mem _ hmem, hstatus⟩, hleaf, rfl,
                rfl, hresult⟩)

theorem pending_step (hm : Moved evictable wire s l s') (hok : s.Admitted serializer key l)
    (hg : s.Grounded key) (hr : s.Replays serializer) (h : s.Pending) : s'.Pending := by
  -- A call with a result that is not the innermost frame's stays.
  have hstays : ∀ {f g : Frame V} {fs : List (Frame V)}, s.frames = f :: fs →
      (∀ a, f.status = .executing a → a.phase.taskResult? = none) →
      ∀ f' a', s.Executing f' a' → a'.isLeaf = true →
        (∃ v, a'.phase.taskResult? = some (.ok v)) → f' ∈ g :: fs := by
    intro f g fs hs hnone f' a' he _ hresult
    exact List.mem_cons_of_mem _ (mem_of_result hs hnone he hresult)
  cases hm with
  | @begun start steps hs ho =>
      constructor
      case acknowledged =>
        intro m hm data output hdata hreply
        cases List.mem_singleton.mp hm
        contradiction
      case forward =>
        exact fun f a he => absurd he (not_executing hs)
      case kept =>
        intro k workflowId position v hcompleted
        rcases h.kept k workflowId position v hcompleted with hcut | hstored | ⟨-, f, a, he, -⟩
        · exact .inl hcut
        · exact .inr (.inl hstored)
        · exact absurd he (not_executing hs)
  | answered hf hn hr' => exact pending_answer h hg hf hn
  | entered ho =>
      refine h.of_frames (fun _ hm => .inl hm) ?_ ?_
      · intro f a hf hstatus _
        rcases List.mem_cons.mp hf with rfl | hf
        · contradiction
        · exact .inl ⟨hf, hstatus⟩
      · exact fun f a he _ _ => List.mem_cons_of_mem _ he.1
  | @called f fs execute task rest hs hf hr' =>
      refine h.of_frames fresh_of_sent ?_ (hstays hs ?_)
      · intro f' a' hf' hstatus _
        rcases List.mem_cons.mp hf' with rfl | hf'
        · cases hstatus
          exact .inr rfl
        · exact .inl (⟨mem_tail hs hf', hstatus⟩)
      · intro a hstatus
        rw [hf] at hstatus
        contradiction
  | @opened f fs a beforeExecution start steps hs hf hp ht =>
      refine h.of_frames fresh_of_sent ?_ (hstays hs ?_)
      · intro f' a' hf' hstatus hleaf
        rcases List.mem_cons.mp hf' with rfl | hf'
        · cases hstatus
          contradiction
        · exact .inl (⟨mem_tail hs hf', hstatus⟩)
      · intro a' hstatus
        rw [hf, Progress.executing.injEq] at hstatus
        rw [← hstatus, hp]
        rfl
  | turned hc hi ht =>
      exact pending_turned h hg hr (caused_of_admitted hok hc hi)
        (allowed_of_admitted hok hc hi) ht
  | @completing f fs hs hf hr' =>
      refine h.of_frames fresh_of_sent ?_ (hstays hs ?_)
      · intro f' a' hf' hstatus _
        rcases List.mem_cons.mp hf' with rfl | hf'
        · contradiction
        · exact .inl (⟨mem_tail hs hf', hstatus⟩)
      · intro a hstatus
        rw [hf] at hstatus
        contradiction
  | ended hl hs => exact pending_left h hl
  | left hl ht =>
      exact pending_turned (pending_left h hl) (grounded_left hg hl) (replays_left hr hl)
        (.inr ⟨_, rfl⟩) (allowed_taskSettled serializer _ _) ht
  | crashed =>
      constructor
      case acknowledged => exact h.acknowledged
      case forward => exact fun f a he => absurd he.1 List.not_mem_nil
      case kept =>
        intro k workflowId position v hcompleted
        rcases logged_crash.mp hcompleted with ⟨heq, -⟩ | hold
        · contradiction
        · rcases h.kept k workflowId position v hold with hcut | ⟨k', value, hle, hstored⟩ |
            ⟨rfl, f, a, he, -, rfl, rfl, hresult⟩
          · exact .inl (logged_crash.mpr (.inr hcut))
          · exact .inr (.inl ⟨k', value, hle, logged_crash.mpr (.inr hstored)⟩)
          · exact .inl (logged_crash.mpr (.inl ⟨rfl, rfl, f, a, v, he, hresult, rfl, rfl⟩))
  | ticked => exact ⟨h.acknowledged, h.forward, h.kept⟩
  | evicted => exact ⟨h.acknowledged, h.forward, h.kept⟩

end Pending

/-! ## One visit in an attempt -/

/-- The workflows a frame is still to start. -/
def ahead (f : Frame V) : List String :=
  match f.status with
  | .executing a => (a.task.map Task.ids).getD [] ++ f.steps.ids
  | _ => f.steps.ids

/-- The workflows the attempt is still to start. -/
def upcoming (s : Attempts V) : List String :=
  (s.opening.map fun (_, start, steps) => start.workflowId :: steps.ids).getD [] ++
    s.frames.flatMap ahead

/-- The workflows the attempt has started, or is still to start. -/
def workflows (s : Attempts V) : List String :=
  s.upcoming ++ s.frames.map (·.runner.workflowId)

def Entry.completion (e : Entry V) : Option (Nat × String × Int) :=
  match e.fact with
  | .completed .. => some (e.attempt, e.workflowId, e.position)
  | _ => none

/-- The bodies that completed, with their attempts. -/
def completions (s : Attempts V) : List (Nat × String × Int) := s.log.filterMap Entry.completion

/-- The body of that step has ended. -/
def Past (f : Frame V) (position : Int) : Prop :=
  position < f.runner.position ∨
    position = f.runner.position ∧ ∃ a, f.status = .executing a ∧ a.phase.early = false

/-- An attempt completes the body of a step once. -/
structure Visits (s : Attempts V) : Prop where
  distinct : s.workflows.Nodup
  past : ∀ workflowId position, (s.attempt, workflowId, position) ∈ s.completions →
    workflowId ∉ s.upcoming ∧
      ∀ f ∈ s.frames, f.runner.workflowId = workflowId → Past f position
  once : s.completions.Nodup

section Visits

variable {serializer : Serializer V} {key : String → Int → String}
  {evictable : CachedLease → Int → Bool} {wire : Wire} {s s' : Attempts V} {l : AttemptLabel V}

theorem mem_completions {k : Nat} {workflowId : String} {position : Int} :
    (k, workflowId, position) ∈ s.completions ↔
      ∃ leaf v, s.Logged k workflowId position (.completed leaf v) := by
  unfold completions
  rw [List.mem_filterMap]
  constructor
  · intro h
    obtain ⟨⟨k', w, p, fact⟩, hmem, heq⟩ := h
    cases fact with
    | completed leaf v =>
        cases heq
        exact ⟨leaf, v, hmem⟩
    | _ => contradiction
  · intro h
    obtain ⟨leaf, v, hmem⟩ := h
    exact ⟨_, hmem, rfl⟩

theorem visits_initial (h : s.initial) : s.Visits := by
  obtain ⟨now, rfl⟩ := h
  constructor <;> simp [workflows, upcoming, completions]

/-- A state with the same completions, whose frames go on with the old ones or
are new. -/
theorem Visits.of_frames (h : s.Visits) {frames : List (Frame V)}
    {opening : Option (Nat × StartCall × Steps)} {sent : List Message}
    (hdistinct : ({ s with frames := frames, opening := opening, sent := sent } :
      Attempts V).workflows.Nodup)
    (hupcoming : ({ s with frames := frames, opening := opening, sent := sent } :
      Attempts V).upcoming ⊆ s.upcoming)
    (hframes : ∀ f ∈ frames, f.runner.workflowId ∈ s.upcoming ∨ ∃ f₀ ∈ s.frames,
      f.runner.workflowId = f₀.runner.workflowId ∧ ∀ position, Past f₀ position →
        Past f position) :
    ({ s with frames := frames, opening := opening, sent := sent } : Attempts V).Visits := by
  constructor
  case distinct => exact hdistinct
  case past =>
    intro workflowId position hmem
    obtain ⟨hnot, hpast⟩ := h.past workflowId position hmem
    refine ⟨fun hmem => hnot (hupcoming hmem), fun f hf heq => ?_⟩
    rcases hframes f hf with hnew | ⟨f₀, hf₀, hsame, hgoes⟩
    · rw [heq] at hnew
      exact absurd hnew hnot
    · exact hgoes position (hpast f₀ hf₀ (hsame.symm.trans heq))
  case once => exact h.once

/-- The innermost frame stays at its step, whose body has not ended. -/
theorem Visits.of_head (h : s.Visits) {f f' : Frame V} {fs : List (Frame V)}
    (hs : s.frames = f :: fs) {opening : Option (Nat × StartCall × Steps)} {sent : List Message}
    (hrunner : f'.runner = f.runner)
    (hearly : ∀ a, f.status = .executing a → a.phase.early = true)
    (hupcoming : ({ s with frames := f' :: fs, opening := opening, sent := sent } :
      Attempts V).upcoming.Sublist s.upcoming) :
    ({ s with frames := f' :: fs, opening := opening, sent := sent } : Attempts V).Visits := by
  refine h.of_frames (h.distinct.sublist (hupcoming.append ?_)) hupcoming.subset ?_
  · rw [hs, List.map_cons, List.map_cons, hrunner]
  · intro f₁ hf₁
    right
    rcases List.mem_cons.mp hf₁ with rfl | hf₁
    · refine ⟨f, mem_head hs, by rw [hrunner], fun position hpast => ?_⟩
      rcases hpast with hlt | ⟨-, a, hstatus, hlate⟩
      · left
        rw [hrunner]
        exact hlt
      · rw [hearly a hstatus] at hlate
        contradiction
    · exact ⟨f₁, mem_tail hs hf₁, rfl, fun _ hpast => hpast⟩

/-- What the server does completes no body. -/
theorem Visits.of_log (h : s.Visits) {world : World} {sent : List Message}
    {log : List (Entry V)} (hlog : log.filterMap Entry.completion = []) :
    ({ s with world := world, sent := sent, log := log ++ s.log } : Attempts V).Visits := by
  have hcompletions : ({ s with world := world, sent := sent, log := log ++ s.log } :
      Attempts V).completions = s.completions := by
    unfold completions
    rw [List.filterMap_append, hlog, List.nil_append]
  constructor
  case distinct => exact h.distinct
  case past =>
    intro workflowId position hmem
    rw [hcompletions] at hmem
    exact h.past workflowId position hmem
  case once =>
    rw [hcompletions]
    exact h.once

theorem visits_left (h : s.Visits) {result : Except Thrown V} (hl : Left s result s') :
    s'.Visits := by
  rcases hl.cases with ⟨f, fs, hs, -, rfl⟩ | rfl
  · have hupcoming : ({ s with frames := fs } : Attempts V).upcoming.Sublist s.upcoming := by
      unfold upcoming
      rw [hs]
      exact List.Sublist.append_left (List.sublist_append_right _ _) _
    refine h.of_frames (h.distinct.sublist (hupcoming.append ?_)) hupcoming.subset
      fun f' hf' => .inr ⟨f', mem_tail hs hf', rfl, fun _ hpast => hpast⟩
    rw [hs]
    exact List.sublist_cons_self _ _
  · have hupcoming : ({ s with opening := none } : Attempts V).upcoming.Sublist s.upcoming :=
      List.sublist_append_right _ _
    exact h.of_frames (h.distinct.sublist (hupcoming.append_right _)) hupcoming.subset
      fun f hf => .inr ⟨f, hf, rfl, fun _ hpast => hpast⟩

/-- A completion is new only where a running body settles successfully. -/
theorem completions_take (wire : Wire) (s : Attempts V) (f : Frame V) (fs : List (Frame V))
    (a : Activity V) (input : Input V) (turn : Turn V) :
    (s.take wire f fs a input turn).completions = s.completions ∨
      (∃ beforeExecution v, a.phase = .running beforeExecution ∧ input = .taskSettled (.ok v)) ∧
        (s.take wire f fs a input turn).completions =
          (s.attempt, f.runner.workflowId, f.runner.position) :: s.completions := by
  have hfirst : ∀ facts : List (Fact V), (∀ fact ∈ facts, ∀ leaf v, fact ≠ .completed leaf v) →
      (facts.map fun fact =>
        ({ attempt := s.attempt, workflowId := f.runner.workflowId
           position := f.runner.position, fact := fact } : Entry V)).filterMap
        Entry.completion = [] := by
    intro facts hno
    rw [List.filterMap_eq_nil_iff]
    intro e he
    obtain ⟨fact, hfact, rfl⟩ := List.mem_map.mp he
    cases fact with
    | completed leaf v => exact absurd rfl (hno _ hfact leaf v)
    | _ => rfl
  unfold completions take facts
  rw [List.map_append, List.filterMap_append, List.filterMap_append, hfirst]
  · rw [List.nil_append]
    split
    · next hp => exact .inr ⟨⟨_, _, hp, rfl⟩, rfl⟩
    · exact .inl rfl
  · intro fact hfact leaf v
    split at hfact
    · rw [List.mem_singleton.mp hfact]
      simp
    · split at hfact
      · rw [List.mem_singleton.mp hfact]
        simp
      · contradiction
    · contradiction

/-- A turn after the end of the body leaves the step behind. -/
theorem past_take {f : Frame V} {a : Activity V} {input : Input V} {turn : Turn V} {sent : Nat}
    (ha : ExecuteCall.Advances a.execute f.runner a.phase input turn)
    (he : turn.phase.early = false) :
    Past { f with runner := turn.runner, status := statusAfter a turn sent }
      f.runner.position := by
  unfold Past statusAfter
  rcases ha.runner_eq with hrunner | ⟨hrunner, v, hv⟩
  · right
    refine ⟨by
      rw [hrunner], { a with phase := turn.phase, awaiting := turn.call.map fun _ => sent },
      ?_, he⟩
    dsimp only
    split
    · next v hv =>
        have hadvance := ha.runner_of_returned hv
        rw [hrunner] at hadvance
        have hposition := congrArg Runner.position hadvance
        simp only [Runner.advance] at hposition
        omega
    · rfl
  · left
    rw [hrunner]
    exact Int.lt_succ _

theorem upcoming_take {f : Frame V} {fs : List (Frame V)} {a : Activity V} {input : Input V}
    {turn : Turn V} (hs : s.frames = f :: fs) (hf : f.status = .executing a) :
    (s.take wire f fs a input turn).upcoming.Sublist s.upcoming := by
  unfold upcoming take
  refine List.Sublist.append_left ?_ _
  rw [hs]
  refine List.Sublist.append_right ?_ _
  unfold ahead statusAfter
  rw [hf]
  dsimp only
  split
  · next heq =>
      split at heq
      · contradiction
      · cases heq
        exact List.Sublist.refl _
  · exact List.sublist_append_right _ _

/-- A step that is past stays so. -/
theorem past_of_past {f : Frame V} {a : Activity V} {input : Input V}
    {turn : Turn V} {sent : Nat}
    (ha : ExecuteCall.Advances a.execute f.runner a.phase input turn)
    (hf : f.status = .executing a) {position : Int} (h : Past f position) :
    Past { f with runner := turn.runner, status := statusAfter a turn sent } position := by
  rcases h with hlt | ⟨rfl, a', hstatus, hlate⟩
  · left
    rcases ha.runner_eq with hrunner | ⟨hrunner, -⟩
    · rw [hrunner]
      exact hlt
    · rw [hrunner]
      exact Int.lt_trans hlt (Int.lt_succ _)
  · rw [hf, Progress.executing.injEq] at hstatus
    subst hstatus
    refine past_take ha ?_
    by_contra hearly
    rw [Bool.not_eq_false] at hearly
    rw [(ha.early_of_early hearly).1] at hlate
    contradiction

/-- A body that still runs has not completed. -/
theorem Visits.not_completed (h : s.Visits) {f : Frame V} {a : Activity V}
    (he : s.Executing f a) (hearly : a.phase.early = true) :
    (s.attempt, f.runner.workflowId, f.runner.position) ∉ s.completions := by
  intro hmem
  obtain ⟨-, hframes⟩ := h.past _ _ hmem
  rcases hframes f he.1 rfl with hlt | ⟨-, a', hstatus, hlate⟩
  · exact absurd hlt (lt_irrefl _)
  · rw [he.2, Progress.executing.injEq] at hstatus
    rw [← hstatus, hearly] at hlate
    contradiction

theorem visits_turned (h : s.Visits) {input : Input V} (ht : Turned wire s input s') :
    s'.Visits := by
  cases ht with
  | @intro f fs a turn hs hf ht =>
      have ha := ExecuteCall.resume_cases ht
      have hupcoming : (s.take wire f fs a input turn).upcoming.Sublist s.upcoming :=
        upcoming_take hs hf
      -- The frame of the call is the only one of its workflow.
      obtain ⟨-, hnodup, hdisjoint⟩ := List.nodup_append.mp h.distinct
      have hstarted : f.runner.workflowId ∉ s.upcoming := fun hmem =>
        hdisjoint _ hmem _ (List.mem_map_of_mem (mem_head hs)) rfl
      rw [hs, List.map_cons, List.nodup_cons] at hnodup
      have hcompletions := completions_take wire s f fs a input turn
      constructor
      case distinct =>
        refine h.distinct.sublist (hupcoming.append ?_)
        show (turn.runner.workflowId :: fs.map (·.runner.workflowId)).Sublist _
        rw [hs, ha.workflowId_eq]
        exact List.Sublist.refl _
      case past =>
        intro workflowId position hmem
        have hcases : (workflowId = f.runner.workflowId ∧ position = f.runner.position ∧
            turn.phase.early = false) ∨ (s.attempt, workflowId, position) ∈ s.completions := by
          rcases hcompletions with hsame | ⟨⟨b, v, hrunning, rfl⟩, hnew⟩
          · rw [hsame] at hmem
            exact .inr hmem
          · rw [hnew] at hmem
            rcases List.mem_cons.mp hmem with heq | hold
            · cases heq
              rw [hrunning] at ht
              cases ht
              exact .inl ⟨rfl, rfl, rfl⟩
            · exact .inr hold
        rcases hcases with ⟨rfl, rfl, hlate⟩ | hold
        · refine ⟨fun hmem => hstarted (hupcoming.subset hmem), fun f' hf' heq => ?_⟩
          rcases List.mem_cons.mp hf' with rfl | hf'
          · exact past_take ha hlate
          · refine absurd ?_ hnodup.1
            rw [← heq]
            exact List.mem_map_of_mem hf'
        · obtain ⟨hnot, hframes⟩ := h.past workflowId position hold
          refine ⟨fun hmem => hnot (hupcoming.subset hmem), fun f' hf' heq => ?_⟩
          rcases List.mem_cons.mp hf' with rfl | hf'
          · exact past_of_past ha hf (hframes f (mem_head hs) (ha.workflowId_eq.symm.trans heq))
          · exact hframes f' (mem_tail hs hf') heq
      case once =>
        rcases hcompletions with hsame | ⟨⟨b, v, hrunning, -⟩, hnew⟩
        · rw [hsame]
          exact h.once
        · rw [hnew]
          refine List.nodup_cons.mpr ⟨h.not_completed ⟨mem_head hs, hf⟩ ?_, h.once⟩
          rw [hrunning]
          rfl

theorem visits_step (hm : Moved evictable wire s l s') (hok : s.Admitted serializer key l)
    (hg : s.Grounded key) (h : s.Visits) : s'.Visits := by
  cases hm with
  | @begun start steps hs ho =>
      have hfrom : ∀ workflowId position,
          (s.attempt + 1, workflowId, position) ∉ s.completions := by
        intro workflowId position hmem
        obtain ⟨leaf, v, hlogged⟩ := mem_completions.mp hmem
        have hle := hg.attempts _ _ _ _ hlogged
        omega
      constructor
      case distinct =>
        simp only [workflows, upcoming, begun, hs, List.flatMap_nil,
          List.append_nil, List.map_nil, Option.map_some, Option.getD_some]
        exact hok.2
      case past => exact fun workflowId position hmem => absurd hmem (hfrom workflowId position)
      case once => exact h.once
  | @answered n env m hf hn hr =>
      refine h.of_log ?_
      rw [List.filterMap_eq_nil_iff]
      intro e he
      obtain ⟨place, -, rfl⟩ := List.mem_map.mp he
      rfl
  | @entered n start steps fencingToken ho =>
      have hupcoming : s.upcoming =
          start.workflowId :: (s.entered start steps fencingToken).upcoming := by
        simp only [upcoming, entered, ho, Option.map_some, Option.getD_some, Option.map_none,
          Option.getD_none, List.flatMap_cons, List.cons_append, List.nil_append, ahead]
      refine h.of_frames ?_ ?_ ?_
      · refine (List.perm_middle.nodup_iff).mpr ?_
        have hdistinct := h.distinct
        unfold workflows at hdistinct
        rw [hupcoming] at hdistinct
        exact hdistinct
      · rw [hupcoming]
        exact List.subset_cons_self _ _
      · intro f hf
        rcases List.mem_cons.mp hf with rfl | hf
        · left
          rw [hupcoming]
          exact List.mem_cons_self
        · exact .inr ⟨f, hf, rfl, fun _ hpast => hpast⟩
  | @called f fs execute task rest hs hf hr =>
      have hupcoming : (s.called wire f fs execute task rest).upcoming.Sublist s.upcoming := by
        simp only [upcoming, called, hs, List.flatMap_cons, ahead, hf, hr, Steps.ids,
          Option.map_some, Option.getD_some, List.Sublist.refl]
      refine h.of_head hs rfl (fun a hstatus => ?_) hupcoming
      rw [hf] at hstatus
      contradiction
  | @opened f fs a beforeExecution start steps hs hf hp ht =>
      have hupcoming : (s.opened wire f fs a start steps).upcoming.Sublist s.upcoming := by
        simp only [upcoming, opened, hs, List.flatMap_cons, ahead, hf, ht, Task.ids,
          Option.map_some, Option.getD_some, Option.map_none, Option.getD_none, List.nil_append,
          List.append_assoc]
        exact List.sublist_append_right _ _
      refine h.of_head hs rfl (fun a' hstatus => ?_) hupcoming
      rw [hf, Progress.executing.injEq] at hstatus
      rw [← hstatus, hp]
      rfl
  | turned hc hi ht => exact visits_turned h ht
  | @completing f fs hs hf hr =>
      have hupcoming : (s.completing wire f fs).upcoming.Sublist s.upcoming := by
        simp only [upcoming, completing, hs, List.flatMap_cons, ahead, hf, List.Sublist.refl]
      refine h.of_head hs rfl (fun a hstatus => ?_) hupcoming
      rw [hf] at hstatus
      contradiction
  | ended hl hs => exact visits_left h hl
  | left hl ht => exact visits_turned (visits_left h hl) ht
  | crashed =>
      have hcuts : s.cuts.filterMap Entry.completion = [] := by
        rw [List.filterMap_eq_nil_iff]
        intro e he
        obtain ⟨f, a, v, -, -, rfl⟩ := mem_cuts.mp he
        rfl
      have hcut : ({ s with frames := [], opening := none } : Attempts V).Visits :=
        h.of_frames List.nodup_nil (List.nil_subset _) fun f hf => absurd hf List.not_mem_nil
      exact hcut.of_log hcuts
  | ticked => exact ⟨h.distinct, h.past, h.once⟩
  | evicted => exact ⟨h.distinct, h.past, h.once⟩

end Visits

/-! ## Recovery -/

/-- The value stored in an attempt is what the body completed with there.  No
later attempt runs it: a later visit asks for the value, and returns it. -/
def Replayed (s : Attempts V) (k : Nat) (workflowId : String) (position : Int) (value : Bytes) :
    Prop :=
  (∀ k', s.Logged k' workflowId position .ran → k' ≤ k) ∧
    (k < s.attempt → ∀ f a, s.Executing f a → f.runner.workflowId = workflowId →
      f.runner.position = position → Replaying value a.phase) ∧
    ∃ leaf v, s.Logged k workflowId position (.completed leaf v) ∧
      ∀ k' v', s.Logged k' workflowId position (.returned v') → k < k' → v' = v

/-- The attempt was cut, and nothing was stored by then. -/
def Cut (s : Attempts V) (k : Nat) (workflowId : String) (position : Int) : Prop :=
  s.Logged k workflowId position .cut ∧
    ∀ k' value, s.Logged k' workflowId position (.stored value) → k < k'

section Recovery

variable {serializer : Serializer V} {key : String → Int → String}
  {evictable : CachedLease → Int → Bool} {wire : Wire} {s : Attempts V}

theorem recovers_of_reachable
    (hr : Reachable (step evictable wire) (Admitted serializer key) initial s) :
    s.Grounded key ∧ s.Replays serializer ∧ s.Origins serializer wire ∧
      s.Pending ∧ s.Visits := by
  refine hr.invariant (fun s => s.Grounded key ∧ s.Replays serializer ∧
    s.Origins serializer wire ∧ s.Pending ∧ s.Visits) ?_ ?_
  · intro s hi
    exact ⟨grounded_initial hi, replays_initial hi, origins_initial hi, pending_initial hi,
      visits_initial hi⟩
  · intro s l s' h hok hs
    obtain ⟨hg, hr, ho, hp, hv⟩ := h
    have hm := step_cases hs
    exact ⟨grounded_step hm hok hg, replays_step hm hok hg hr, origins_step hm hok hg ho,
      pending_step hm hok hg hr hp, visits_step hm hok hg hv⟩

/-- **Recovery by replay.** -/
theorem recovery_by_replay (hinverse : serializer.Inverse wire)
    (hr : Reachable (step evictable wire) (Admitted serializer key) initial s) :
    (∀ k workflowId position value, s.Logged k workflowId position (.stored value) →
      s.Replayed k workflowId position value) ∧
    (∀ k k' workflowId position v v', s.Logged k workflowId position (.completed true v) →
      s.Logged k' workflowId position (.completed true v') → k < k' →
      s.Cut k workflowId position) ∧
    s.completions.Nodup := by
  obtain ⟨hg, hr, ho, hp, hv⟩ := recovers_of_reachable hr
  refine ⟨?_, ?_, hv.once⟩
  · intro k workflowId position value hstored
    obtain ⟨leaf, v, hcompleted, hvalue⟩ := ho.stored k workflowId position value hstored
    refine ⟨fun k' hran => hr.ran k k' _ _ value hstored hran, ?_, leaf, v, hcompleted, ?_⟩
    · rintro hlt f a he rfl rfl
      exact hr.phases f a value he ⟨k, hlt, hstored⟩
    · intro k' v' hreturned hlt
      rw [hr.returned k k' _ _ value v' hstored hreturned hlt, hvalue]
      exact hinverse v
  · intro k k' workflowId position v v' hfirst hsecond hlt
    -- Nothing stored until then: otherwise the body would not have run again.
    have hnone : ∀ j value, s.Logged j workflowId position (.stored value) → k < j := by
      intro j value hstored
      exact Nat.lt_of_lt_of_le hlt (hr.completed j k' _ _ value _ _ hstored hsecond)
    refine ⟨?_, hnone⟩
    rcases hp.kept k workflowId position v hfirst with
      hcut | ⟨j, value, hle, hstored⟩ | ⟨heq, -⟩
    · exact hcut
    · exact absurd (hnone j value hstored) (Nat.not_lt.mpr hle)
    · exact absurd (hg.attempts _ _ _ _ hsecond) (by omega)

end Recovery

end Attempts

/-! ## A run -/

/-- A call that leases for a second. -/
def keyed (idempotencyKey : String) : ExecuteCall :=
  { idempotencyKey := idempotencyKey,
    options := { leaseTimeout := some 1000, onAbort := none } }

/-- A step that runs a workflow of one step. -/
def order : Steps :=
  .step (keyed "order")
    (.workflow { workflowId := "shipping", name := none, completedRetentionTime := none }
      (.step (keyed "shipping") .leaf .done))
    .done

/-- An attempt as far as the reply to the inner lease request. -/
def reachInner : List (AttemptLabel Bytes) :=
  [.begin { workflowId := "order", name := none, completedRetentionTime := none } order,
    .handle 0 (.calm "" true), .enter, .execute, .handle 1 (.calm "" true), .deliver 0,
    .startInner, .handle 2 (.calm "" true), .enter, .execute,
    .handle 3 (.calm "" true), .deliver 0]

/-- The leaf ends, and the attempt is cut: the first time the checkpoint is
never handled, the second time it is.  The leases expire. -/
def cutAfter (handled : List (AttemptLabel Bytes)) : List (AttemptLabel Bytes) :=
  [.resume (.taskSettled (.ok [7])), .resume (.serialized (.ok (.bytes [7])) 0)] ++ handled ++
    [.crash, .tick 2000]

/-- The leaf's value is replayed, and the workflows are completed. -/
def replayed : List (AttemptLabel Bytes) :=
  [.resume (.deserialized (.ok [7])), .complete, .handle 4 (.calm "" true), .leave [7],
    .resume (.serialized (.ok (.bytes [7])) 0), .handle 5 (.calm "" true),
    .deliver 0, .complete,
    .handle 6 (.calm "" true), .leave [7]]

def threeAttempts : List (AttemptLabel Bytes) :=
  reachInner ++ cutAfter [] ++ reachInner ++
    cutAfter [.handle 4 (.calm "" true)] ++ reachInner ++
    replayed

/-- What happened, latest first. -/
def threeAttemptsLog : List (Entry Bytes) :=
  [⟨3, "order", 0, .returned [7]⟩, ⟨3, "order", 0, .stored [7]⟩,
    ⟨3, "order", 0, .completed false [7]⟩, ⟨3, "shipping", 0, .returned [7]⟩,
    ⟨2, "shipping", 0, .cut⟩, ⟨2, "shipping", 0, .stored [7]⟩,
    ⟨2, "shipping", 0, .completed true [7]⟩, ⟨2, "shipping", 0, .ran⟩,
    ⟨1, "shipping", 0, .cut⟩, ⟨1, "shipping", 0, .completed true [7]⟩,
    ⟨1, "shipping", 0, .ran⟩]

theorem third_attempt_replays :
    ∃ s, execOk (Attempts.step leaseExpired silentWire)
        (Attempts.Admitted plain fun workflowId _ => workflowId) (Attempts.start Bytes)
        threeAttempts = some s ∧
      s.completions = [(3, "order", 0), (2, "shipping", 0), (1, "shipping", 0)] ∧
      s.Logged 3 "shipping" 0 (.returned [7]) ∧ s.Replayed 2 "shipping" 0 [7] ∧
      s.Cut 1 "shipping" 0 := by
  obtain ⟨s, hs⟩ : ∃ s, execOk (Attempts.step leaseExpired silentWire)
      (Attempts.Admitted plain fun workflowId _ => workflowId) (Attempts.start Bytes)
      threeAttempts = some s :=
    Option.isSome_iff_exists.mp (by decide +kernel)
  have hlog := eq_of_outcome hs Attempts.log (a := threeAttemptsLog) (by decide +kernel)
  have hlogged : ∀ {k fact}, ⟨k, "shipping", 0, fact⟩ ∈ threeAttemptsLog →
      s.Logged k "shipping" 0 fact := by
    intro k fact hmem
    rw [Attempts.Logged, hlog]
    exact hmem
  obtain ⟨hreplayed, hcut, -⟩ := Attempts.recovery_by_replay (plain_inverse silentWire)
    (.of_execOk (.start (Attempts.initial_start Bytes)) hs)
  refine ⟨s, hs, ?_, hlogged (by decide), hreplayed 2 _ _ _ (hlogged (by decide)),
    hcut 1 2 _ _ [7] [7] (hlogged (by decide)) (hlogged (by decide)) (by decide)⟩
  rw [Attempts.completions, hlog]
  rfl

end IdempotentTransformer
