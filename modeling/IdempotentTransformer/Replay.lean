import IdempotentTransformer.Attempts

/-!
# IdempotentTransformer.Replay

What later attempts find: keys and rows agree with the log (`Grounded`), an
attempt that finds a value from before replays it (`Replays`), and what is
stored is what a body completed with (`Origins`).
-/

namespace IdempotentTransformer

open Library

namespace Attempts

variable {V : Type}

/-! ## The assumptions -/

/-- A leaf's result is serialized, and its checkpoint is answered within the
lease. -/
def Timely (s : Attempts V) (input : Input V) : Prop :=
  ∀ a ∈ s.current, a.isLeaf = true →
    ¬ a.execute.TimesOut a.phase input ∧ input.unserialized = false

instance (s : Attempts V) (input : Input V) : Decidable (s.Timely input) :=
  inferInstanceAs (Decidable (∀ a ∈ s.current, _ → _))

/-- A value is not deserialized. -/
def undeserialized : Input V → Bool
  | .deserialized (.error _) => true
  | _ => false

/-- Every attempt uses the key of a position, and starts every workflow of its
tree once; the workers share a serializer, which reads what it wrote; a lease
request is answered, and leaves are checkpointed in time. -/
def Admitted (serializer : Serializer V) (key : String → Int → String) (s : Attempts V) :
    AttemptLabel V → Prop
  | .begin start steps =>
      steps.keyed key start.workflowId 0 = true ∧ (start.workflowId :: steps.ids).Nodup
  | .deliver now => ∀ a ∈ s.current, ∀ result ∈ a.awaiting.bind s.outcome,
      s.Timely (.reply result now)
  | .fail err now => s.Timely (.reply (.error (GrpcAdapter.handleError err)) now) ∧
      ∀ a ∈ s.current, a.phase.early = false
  | .resume input => s.Timely input ∧ undeserialized input = false ∧
      ∀ a ∈ s.current, serializer.Explains a.phase input
  | _ => True

instance [DecidableEq V] (serializer : Serializer V) (key : String → Int → String)
    (s : Attempts V) (l : AttemptLabel V) : Decidable (s.Admitted serializer key l) :=
  match l with
  | .begin .. => inferInstanceAs (Decidable (_ ∧ _))
  | .deliver _ =>
      inferInstanceAs (Decidable (∀ a ∈ s.current, ∀ result ∈ a.awaiting.bind s.outcome, _))
  | .fail .. => inferInstanceAs (Decidable (_ ∧ ∀ a ∈ s.current, _))
  | .resume _ => inferInstanceAs (Decidable (_ ∧ _ ∧ ∀ a ∈ s.current, _))
  | .handle .. => .isTrue trivial
  | .enter => .isTrue trivial
  | .execute => .isTrue trivial
  | .startInner => .isTrue trivial
  | .complete => .isTrue trivial
  | .leave _ => .isTrue trivial
  | .reject _ => .isTrue trivial
  | .unwind => .isTrue trivial
  | .crash => .isTrue trivial
  | .tick _ => .isTrue trivial
  | .evict _ => .isTrue trivial

/-! ## Keys, rows and the log -/

/-- The request uses the key of its position, and deletes nothing. -/
def KeyedBy (key : String → Int → String) : Request → Prop
  | .leaseCheckpoint data => data.idempotencyKey = key data.workflowId data.position
  | .checkpoint data => data.idempotencyKey = key data.workflowId data.position
  | .generateIdempotencyKey _ | .cleanUp => False
  | _ => True

/-- The steps ahead of a workflow use the keys of their positions. -/
def KeyedFrame (key : String → Int → String) (f : Frame V) : Prop :=
  match f.status with
  | .executing a =>
      a.execute.idempotencyKey = key f.runner.workflowId f.runner.position ∧
        (∀ task ∈ a.task, task.keyed key = true) ∧
        f.steps.keyed key f.runner.workflowId (f.runner.position + 1) = true
  | _ => f.steps.keyed key f.runner.workflowId f.runner.position = true

/-- The rows are those the log says were stored, under the keys of their
positions. -/
structure Grounded (key : String → Int → String) (s : Attempts V) : Prop where
  attempts : ∀ k workflowId position fact, s.Logged k workflowId position fact → k ≤ s.attempt
  frames : ∀ f ∈ s.frames, KeyedFrame key f
  opening : ∀ n start steps, s.opening = some (n, start, steps) →
    steps.keyed key start.workflowId 0 = true
  sent : ∀ m ∈ s.sent, KeyedBy key m.request
  rows : ∀ workflowId position row, s.world.checkpoints workflowId position = some row →
    row.idempotencyKey = key workflowId position ∧
      ∃ k value, row.value = some value ∧ s.Logged k workflowId position (.stored value)
  stored : ∀ k workflowId position value, s.Logged k workflowId position (.stored value) →
    ∃ row, s.world.checkpoints workflowId position = some row ∧ row.value = some value

section Grounded

variable {key : String → Int → String} {evictable : CachedLease → Int → Bool} {wire : Wire}
  {s s' : Attempts V} {l : AttemptLabel V}

theorem grounded_initial (h : s.initial) : s.Grounded key := by
  obtain ⟨now, rfl⟩ := h
  constructor <;> simp [Logged, World.empty]

/-- A state with the same world and log. -/
theorem Grounded.of_frames (h : s.Grounded key) {frames : List (Frame V)}
    {opening : Option (Nat × StartCall × Steps)} {sent : List Message}
    (hframes : ∀ f ∈ frames, KeyedFrame key f)
    (hopening : ∀ n start steps, opening = some (n, start, steps) →
      steps.keyed key start.workflowId 0 = true)
    (hsent : ∀ m ∈ sent, KeyedBy key m.request) :
    ({ s with frames := frames, opening := opening, sent := sent } : Attempts V).Grounded key :=
  ⟨h.attempts, hframes, hopening, hsent, h.rows, h.stored⟩

/-- The frame that changes is the innermost one. -/
theorem Grounded.frames_cons (h : s.Grounded key) {f f' : Frame V} {fs : List (Frame V)}
    (hs : s.frames = f :: fs) (hf' : KeyedFrame key f') : ∀ g ∈ f' :: fs, KeyedFrame key g := by
  intro g hg
  rcases List.mem_cons.mp hg with rfl | hg
  · exact hf'
  · exact h.frames g (mem_tail hs hg)

theorem Grounded.sent_concat (h : s.Grounded key) {call : AdapterCall}
    (hcall : KeyedBy key (message wire call).request) :
    ∀ m ∈ s.sent ++ [message wire call], KeyedBy key m.request := by
  intro m hm
  rcases mem_sent_concat hm with hold | rfl
  · exact h.sent m hold
  · exact hcall

theorem not_cleanUp_of_keyedBy {request : Request} (h : KeyedBy key request) :
    request ≠ .cleanUp := by
  rintro rfl
  exact h

theorem grounded_answer (h : s.Grounded key) {env : Env} (hf : env.fault = .none) {n : Nat}
    {m : Message} (hn : s.sent[n]? = some m) : (s.answer env n m).Grounded key := by
  have hkeyed := h.sent m (List.mem_of_getElem? hn)
  have hclean := not_cleanUp_of_keyedBy hkeyed
  constructor
  case attempts =>
    intro k workflowId position fact hlogged
    rcases logged_answer.mp hlogged with ⟨rfl, -⟩ | hold
    · exact le_refl _
    · exact h.attempts k workflowId position fact hold
  case frames => exact h.frames
  case opening => exact h.opening
  case sent =>
    intro m' hm'
    rcases List.mem_or_eq_of_mem_set hm' with hold | rfl
    · exact h.sent m' hold
    · exact hkeyed
  case rows =>
    intro workflowId position row hrow
    replace hrow : (m.request.handle env s.world).2.checkpoints workflowId position =
      some row := hrow
    rcases handle_checkpoints_cases hf s.world hclean workflowId position with
      hsame | ⟨old, hold, hnew⟩ | ⟨hnone, ⟨data, hdata, rfl, rfl, -, hnew⟩ | ⟨data, hdata, -⟩⟩
    · rw [hsame] at hrow
      obtain ⟨hkey, k, value, hvalue, hlogged⟩ := h.rows workflowId position row hrow
      exact ⟨hkey, k, value, hvalue, logged_answer.mpr (.inr hlogged)⟩
    · rw [hnew, Option.some.injEq] at hrow
      subst hrow
      obtain ⟨hkey, k, value, hvalue, hlogged⟩ := h.rows workflowId position old hold
      exact ⟨hkey, k, value, hvalue, logged_answer.mpr (.inr hlogged)⟩
    · have hmem : (data.workflowId, data.position, data.value) ∈
          storedFact s.world (m.request.handle env s.world).2 m.request :=
        mem_storedFact.mpr ⟨data, hdata, rfl, rfl, hnone, _, hnew, rfl⟩
      rw [hnew, Option.some.injEq] at hrow
      subst hrow
      rw [hdata] at hkeyed
      exact ⟨hkeyed, s.attempt, data.value, rfl,
        logged_answer.mpr (.inl ⟨rfl, data.value, rfl, hmem⟩)⟩
    · rw [hdata] at hkeyed
      exact absurd hkeyed id
  case stored =>
    intro k workflowId position value hlogged
    rcases logged_answer.mp hlogged with ⟨-, value', heq, hmem⟩ | hold
    · cases heq
      obtain ⟨data, -, -, -, -, hrow⟩ := mem_storedFact.mp hmem
      exact hrow
    · obtain ⟨row, hrow, hvalue⟩ := h.stored k workflowId position value hold
      obtain ⟨createdAt, hnew⟩ := handle_row_persists hf s.world hclean hrow
      exact ⟨_, hnew, hvalue⟩

/-- The requests of a turn use the key of the position. -/
theorem keyedBy_sent {f : Frame V} {a : Activity V} {input : Input V} {turn : Turn V}
    (ha : ExecuteCall.Advances a.execute f.runner a.phase input turn)
    (hkey : a.execute.idempotencyKey = key f.runner.workflowId f.runner.position) {m : Message}
    (hm : m ∈ (turn.call.map (message wire)).toList) : KeyedBy key m.request := by
  obtain ⟨call, hcall, rfl⟩ := mem_message hm
  rcases ha.call_cases hcall with ⟨k, -, -, rfl⟩ | ⟨leaseExpiry, v, value, -, -, rfl⟩ |
    ⟨beforeExecution, err, -, -, -, rfl⟩
  · exact hkey
  · exact hkey
  · trivial

theorem grounded_turned (h : s.Grounded key) {input : Input V} (ht : Turned wire s input s') :
    s'.Grounded key := by
  cases ht with
  | @intro f fs a turn hs hf ht =>
      have ha := ExecuteCall.resume_cases ht
      have hkeyed := h.frames f (mem_head hs)
      rw [KeyedFrame, hf] at hkeyed
      obtain ⟨hkey, htask, hsteps⟩ := hkeyed
      constructor
      case attempts =>
        intro k workflowId position fact hlogged
        rcases logged_take.mp hlogged with ⟨rfl, -⟩ | hold
        · exact le_refl _
        · exact h.attempts k workflowId position fact hold
      case frames =>
        refine h.frames_cons hs ?_
        rw [KeyedFrame]
        cases hstatus : statusAfter a turn s.sent.length with
        | executing a' =>
            obtain ⟨hreturned, rfl⟩ := statusAfter_executing hstatus
            rcases ha.runner_eq with hrunner | ⟨-, v, hv⟩
            · dsimp only
              rw [hrunner]
              exact ⟨hkey, htask, hsteps⟩
            · exact absurd hv (hreturned v)
        | idle =>
            unfold statusAfter at hstatus
            split at hstatus
            · next v hv =>
                dsimp only
                rw [ha.runner_of_returned hv]
                exact hsteps
            · contradiction
        | completing n =>
            unfold statusAfter at hstatus
            split at hstatus <;> contradiction
      case opening => exact h.opening
      case sent =>
        intro m hm
        rcases List.mem_append.mp hm with hold | hnew
        · exact h.sent m hold
        · exact keyedBy_sent ha hkey hnew
      case rows =>
        intro workflowId position row hrow
        obtain ⟨hkey, k, value, hvalue, hlogged⟩ := h.rows workflowId position row hrow
        exact ⟨hkey, k, value, hvalue, logged_take.mpr (.inr hlogged)⟩
      case stored =>
        intro k workflowId position value hlogged
        exact h.stored k workflowId position value (stored_take.mp hlogged)

theorem grounded_left (h : s.Grounded key) {result : Except Thrown V} (hl : Left s result s') :
    s'.Grounded key := by
  rcases hl.cases with ⟨f, fs, hs, -, rfl⟩ | rfl
  · exact h.of_frames (fun f' hf' => h.frames f' (mem_tail hs hf')) h.opening h.sent
  · exact h.of_frames h.frames (fun _ _ _ heq => by contradiction) h.sent

theorem keyed_step {workflowId : String} {position : Int} {execute : ExecuteCall} {task : Task}
    {rest : Steps} (h : (Steps.step execute task rest).keyed key workflowId position = true) :
    execute.idempotencyKey = key workflowId position ∧ task.keyed key = true ∧
      rest.keyed key workflowId (position + 1) = true := by
  simp only [Steps.keyed, Bool.and_eq_true, beq_iff_eq] at h
  exact ⟨h.1.1, h.1.2, h.2⟩

theorem grounded_begun (h : s.Grounded key) {start : StartCall} {steps : Steps}
    (hsteps : steps.keyed key start.workflowId 0 = true) :
    (s.begun wire start steps).Grounded key := by
  constructor
  case attempts =>
    exact fun k workflowId position fact hlogged =>
      Nat.le_succ_of_le (h.attempts k workflowId position fact hlogged)
  case frames => exact h.frames
  case opening =>
    intro n start' steps' heq
    cases heq
    exact hsteps
  case sent =>
    intro m hm
    cases List.mem_singleton.mp hm
    trivial
  case rows => exact h.rows
  case stored => exact h.stored

theorem grounded_crash (h : s.Grounded key) :
    ({ s with frames := [], opening := none, log := s.cuts ++ s.log } :
      Attempts V).Grounded key := by
  constructor
  case attempts =>
    intro k workflowId position fact hmem
    rcases logged_crash.mp hmem with ⟨-, rfl, -⟩ | hold
    · exact le_refl _
    · exact h.attempts k workflowId position fact hold
  case frames => exact fun f hf => by contradiction
  case opening => exact fun _ _ _ heq => by contradiction
  case sent => exact h.sent
  case rows =>
    intro workflowId position row hrow
    obtain ⟨hkey, k, value, hvalue, hold⟩ := h.rows workflowId position row hrow
    exact ⟨hkey, k, value, hvalue, logged_crash.mpr (.inr hold)⟩
  case stored =>
    intro k workflowId position value hmem
    rcases logged_crash.mp hmem with ⟨heq, -⟩ | hold
    · contradiction
    · exact h.stored k workflowId position value hold

theorem grounded_step {serializer : Serializer V} (hm : Moved evictable wire s l s')
    (hok : s.Admitted serializer key l) (h : s.Grounded key) : s'.Grounded key := by
  cases hm with
  | begun hs ho => exact grounded_begun h hok.1
  | answered hf hn hr => exact grounded_answer h hf hn
  | entered ho =>
      refine h.of_frames ?_ (fun _ _ _ heq => by contradiction) h.sent
      intro f hf
      rcases List.mem_cons.mp hf with rfl | hf
      · exact h.opening _ _ _ ho
      · exact h.frames f hf
  | @called f fs execute task rest hs hf hr =>
      have hkeyed := h.frames f (mem_head hs)
      rw [KeyedFrame, hf] at hkeyed
      dsimp only at hkeyed
      rw [hr] at hkeyed
      obtain ⟨hkey, htask, hrest⟩ := keyed_step hkeyed
      refine h.of_frames (h.frames_cons hs ⟨hkey, ?_, hrest⟩) h.opening (h.sent_concat hkey)
      intro task' htask'
      cases htask'
      exact htask
  | @opened f fs a beforeExecution start steps hs hf hp ht =>
      have hkeyed := h.frames f (mem_head hs)
      rw [KeyedFrame, hf] at hkeyed
      obtain ⟨hkey, htask, hrest⟩ := hkeyed
      refine h.of_frames (h.frames_cons hs ?_) ?_ (h.sent_concat trivial)
      · exact ⟨hkey, fun task' htask' => by contradiction, hrest⟩
      · intro n start' steps' heq
        cases heq
        have hkeyed := htask _ ht
        rw [Task.keyed] at hkeyed
        exact hkeyed
  | turned hc hi ht => exact grounded_turned h ht
  | @completing f fs hs hf hr =>
      have hkeyed := h.frames f (mem_head hs)
      rw [KeyedFrame, hf] at hkeyed
      exact h.of_frames (h.frames_cons hs hkeyed) h.opening (h.sent_concat trivial)
  | ended hl hs => exact grounded_left h hl
  | left hl ht => exact grounded_turned (grounded_left h hl) ht
  | crashed => exact grounded_crash h
  | ticked => exact ⟨h.attempts, h.frames, h.opening, h.sent, h.rows, h.stored⟩
  | evicted => exact ⟨h.attempts, h.frames, h.opening, h.sent, h.rows, h.stored⟩

end Grounded

/-! ## What the innermost call goes on with -/

/-- What the assumptions say of an input. -/
structure Allowed (serializer : Serializer V) (s : Attempts V) (input : Input V) : Prop where
  timely : s.Timely input
  deserialized : undeserialized input = false
  explains : ∀ a, s.current = some a → serializer.Explains a.phase input

/-- An input comes from outside, or from the workflow the call runs. -/
def Caused (s : Attempts V) (input : Input V) : Prop :=
  (∃ l a, s.current = some a ∧ Prompts s a l input ∧
    ∀ err now, l = .fail err now → a.phase.early = false) ∨
  ∃ result, input = .taskSettled result

section Allowed

variable {serializer : Serializer V} {key : String → Int → String} {s : Attempts V}
  {l : AttemptLabel V} {a : Activity V} {input : Input V}

theorem allowed_of_admitted (hok : s.Admitted serializer key l) (hc : s.current = some a)
    (hi : Prompts s a l input) : s.Allowed serializer input := by
  cases hi with
  | delivered ha ho =>
      refine ⟨hok a hc _ ?_, rfl, fun a' _ => ?_⟩
      · exact Option.mem_def.mpr (Option.bind_eq_some_iff.mpr ⟨_, ha, ho⟩)
      · cases a'.phase <;> trivial
  | failed ha =>
      refine ⟨hok.1, rfl, fun a' _ => ?_⟩
      cases a'.phase <;> trivial
  | resumed ha => exact ⟨hok.1, hok.2.1, hok.2.2⟩

theorem caused_of_admitted (hok : s.Admitted serializer key l) (hc : s.current = some a)
    (hi : Prompts s a l input) : s.Caused input := by
  refine .inl ⟨l, a, hc, hi, ?_⟩
  rintro err now rfl
  exact hok.2 a hc

/-- The end of an inner workflow is always allowed. -/
theorem allowed_taskSettled (serializer : Serializer V) (s : Attempts V)
    (result : Except Thrown V) : s.Allowed serializer (.taskSettled result) := by
  refine ⟨?_, rfl, ?_⟩
  · intro a _ _
    refine ⟨fun hlate => ?_, rfl⟩
    unfold ExecuteCall.TimesOut at hlate
    split at hlate <;> contradiction
  · intro a _
    cases a.phase <;> trivial

end Allowed

/-! ## Replays -/

/-- A value was stored for the position in an earlier attempt. -/
def Old (s : Attempts V) (workflowId : String) (position : Int) (value : Bytes) : Prop :=
  ∃ k, k < s.attempt ∧ s.Logged k workflowId position (.stored value)

/-- A call asks for the value, or has it: it does not run its body, and does not
throw. -/
inductive Replaying (value : Bytes) : Phase V → Prop
  | leasing {k : Nat} : Replaying value (.leasing k)
  | deserializing {k : Nat} : Replaying value (.deserializing (.bytes value) k)

/-- A call on a position with a value from before replays it. -/
structure Replays (serializer : Serializer V) (s : Attempts V) : Prop where
  /-- A call waits for replies to requests about its position. -/
  awaits : ∀ f a, s.Executing f a → a.phase.calling = true → ∃ (n : Nat) (m : Message),
    a.awaiting = some n ∧ s.sent[n]? = some m ∧
      m.request.leasePosition = some (f.runner.workflowId, f.runner.position) ∧
      ∀ k, a.phase = .leasing k → ∃ data, m.request = .leaseCheckpoint data
  fits : ∀ m ∈ s.sent, ∀ response, m.reply = some (.ok response) → m.request.Fits response
  replies : ∀ m ∈ s.sent, ∀ data value reply, m.request = .leaseCheckpoint data →
    s.Old data.workflowId data.position value → m.reply = some reply →
    reply = .ok (.leaseCheckpoint { response := some (.CheckpointValue value) })
  phases : ∀ f a value, s.Executing f a →
    s.Old f.runner.workflowId f.runner.position value → Replaying value a.phase
  ran : ∀ k k' workflowId position value, s.Logged k workflowId position (.stored value) →
    s.Logged k' workflowId position .ran → k' ≤ k
  completed : ∀ k k' workflowId position value leaf v,
    s.Logged k workflowId position (.stored value) →
    s.Logged k' workflowId position (.completed leaf v) → k' ≤ k
  returned : ∀ k k' workflowId position value v, s.Logged k workflowId position
    (.stored value) →
    s.Logged k' workflowId position (.returned v) → k < k' →
      v = serializer.deserialize (.bytes value)

section Replays

variable {serializer : Serializer V} {key : String → Int → String}
  {evictable : CachedLease → Int → Bool} {wire : Wire} {s s' : Attempts V} {l : AttemptLabel V}

theorem replays_initial (h : s.initial) : s.Replays serializer := by
  obtain ⟨now, rfl⟩ := h
  constructor <;> simp [Logged, Executing]

/-- A state with the same log, whose calls are the old ones or ask for a lease. -/
theorem Replays.of_frames (h : s.Replays serializer) {frames : List (Frame V)}
    {opening : Option (Nat × StartCall × Steps)} {sent : List Message}
    (hsent : ∀ (n : Nat) (m : Message), s.sent[n]? = some m → sent[n]? = some m)
    (hnew : ∀ m ∈ sent, m ∈ s.sent ∨ m.reply = none)
    (hexec : ∀ f a, f ∈ frames → f.status = .executing a →
      (∃ f₀ a₀, s.Executing f₀ a₀ ∧ f.runner = f₀.runner ∧ a.phase = a₀.phase ∧
        a.awaiting = a₀.awaiting) ∨
      (a.phase = .leasing 0 ∧ ∃ (n : Nat) (m : Message), a.awaiting = some n ∧
        sent[n]? = some m ∧
        m.request.leasePosition = some (f.runner.workflowId, f.runner.position) ∧
        ∃ data, m.request = .leaseCheckpoint data)) :
    ({ s with frames := frames, opening := opening, sent := sent } : Attempts V).Replays
      serializer := by
  constructor
  case awaits =>
    intro f a he hcalling
    rcases hexec f a he.1 he.2 with ⟨f₀, a₀, he₀, hrunner, hphase, hawaiting⟩ | ⟨-, hasks⟩
    · rw [hphase] at hcalling
      obtain ⟨n, m, hn, hm, hplace, hlease⟩ := h.awaits f₀ a₀ he₀ hcalling
      exact ⟨n, m, hawaiting.trans hn, hsent n m hm, by rw [hrunner]; exact hplace,
        fun k hk => hlease k (hphase.symm.trans hk)⟩
    · obtain ⟨n, m, hn, hm, hplace, hlease⟩ := hasks
      exact ⟨n, m, hn, hm, hplace, fun _ _ => hlease⟩
  case fits =>
    intro m hm response hreply
    rcases hnew m hm with hold | hnone
    · exact h.fits m hold response hreply
    · rw [hnone] at hreply
      contradiction
  case replies =>
    intro m hm data value reply hdata hold hreply
    rcases hnew m hm with hmem | hnone
    · exact h.replies m hmem data value reply hdata hold hreply
    · rw [hnone] at hreply
      contradiction
  case phases =>
    intro f a value he hold
    rcases hexec f a he.1 he.2 with ⟨f₀, a₀, he₀, hrunner, hphase, -⟩ | ⟨hphase, -⟩
    · rw [hphase]
      exact h.phases f₀ a₀ value he₀ (hrunner ▸ hold)
    · rw [hphase]
      exact .leasing
  case ran => exact h.ran
  case completed => exact h.completed
  case returned => exact h.returned

/-- A request that is sent is not answered yet. -/
theorem fresh_of_sent {call : AdapterCall} (m : Message)
    (hm : m ∈ s.sent ++ [message wire call]) :
    m ∈ s.sent ∨ m.reply = none := by
  rcases mem_sent_concat hm with hold | rfl
  · exact .inl hold
  · exact .inr rfl

theorem replays_left (h : s.Replays serializer) {result : Except Thrown V}
    (hl : Left s result s') : s'.Replays serializer := by
  rcases hl.cases with ⟨f, fs, hs, -, rfl⟩ | rfl
  · exact h.of_frames (fun _ _ hm => hm) (fun _ hm => .inl hm) fun f' a' hf' hstatus =>
      .inl ⟨f', a', ⟨mem_tail hs hf', hstatus⟩, rfl, rfl, rfl⟩
  · exact h.of_frames (fun _ _ hm => hm) (fun _ hm => .inl hm) fun f' a' hf' hstatus =>
      .inl ⟨f', a', ⟨hf', hstatus⟩, rfl, rfl, rfl⟩

theorem replays_answer (h : s.Replays serializer) (hg : s.Grounded key) {env : Env}
    (hf : env.fault = .none) {n : Nat} {m : Message} (hn : s.sent[n]? = some m) :
    (s.answer env n m).Replays serializer := by
  have hkeyed := hg.sent m (List.mem_of_getElem? hn)
  -- What is stored now is not from before.
  have hlogged : ∀ {k workflowId position fact},
      (s.answer env n m).Logged k workflowId position fact →
      (k = s.attempt ∧ ∃ value, fact = .stored value) ∨
        s.Logged k workflowId position fact := by
    intro k workflowId position fact hmem
    rcases logged_answer.mp hmem with ⟨hk, value, heq, -⟩ | hold
    · exact .inl ⟨hk, value, heq⟩
    · exact .inr hold
  have hold : ∀ {workflowId position value}, (s.answer env n m).Old workflowId position value →
      s.Old workflowId position value := by
    intro workflowId position value hold
    obtain ⟨k, hk, hmem⟩ := hold
    rcases hlogged hmem with ⟨heq, -⟩ | hmem
    · exact absurd hk (by rw [heq]; exact Nat.lt_irrefl _)
    · exact ⟨k, hk, hmem⟩
  constructor
  case awaits =>
    intro f a he hcalling
    obtain ⟨n', m', hawaiting, hm', hplace⟩ := h.awaits f a he hcalling
    by_cases hne : n = n'
    · subst hne
      rw [hn, Option.some.injEq] at hm'
      subst hm'
      exact ⟨n, { m with reply := some (m.request.handle env s.world).1 }, hawaiting,
        List.getElem?_set_self (List.getElem?_eq_some_iff.mp hn).1, hplace⟩
    · refine ⟨n', m', hawaiting, ?_, hplace⟩
      show (s.sent.set n _)[n']? = some m'
      rw [List.getElem?_set_ne hne]
      exact hm'
  case fits =>
    intro m' hm' response hreply
    rcases List.mem_or_eq_of_mem_set hm' with hmem | rfl
    · exact h.fits m' hmem response hreply
    · exact handle_fits (Option.some.inj hreply)
  case replies =>
    intro m' hm' data value reply hdata hvalue hreply
    rcases List.mem_or_eq_of_mem_set hm' with hmem | rfl
    · exact h.replies m' hmem data value reply hdata (hold hvalue) hreply
    · -- The row is there, under the key of the request.
      obtain ⟨k, -, hstored⟩ := hold hvalue
      obtain ⟨row, hrow, hrowValue⟩ := hg.stored k _ _ value hstored
      obtain ⟨hkey, -⟩ := hg.rows _ _ row hrow
      have hdata : m.request = .leaseCheckpoint data := hdata
      rw [hdata] at hkeyed
      rw [← Option.some.inj hreply, hdata, handle_leaseCheckpoint_of_row hf hrow, replayReply,
        if_neg (by rw [hkey, ← hkeyed]; simp), hrowValue]
  case phases => exact fun f a value he hvalue => h.phases f a value he (hold hvalue)
  case ran =>
    intro k k' workflowId position value hstored hran
    rcases hlogged hran with ⟨-, value', heq⟩ | hran
    · contradiction
    rcases hlogged hstored with ⟨rfl, -⟩ | hstored
    · exact hg.attempts _ _ _ _ hran
    · exact h.ran k k' workflowId position value hstored hran
  case completed =>
    intro k k' workflowId position value leaf v hstored hcompleted
    rcases hlogged hcompleted with ⟨-, value', heq⟩ | hcompleted
    · contradiction
    rcases hlogged hstored with ⟨rfl, -⟩ | hstored
    · exact hg.attempts _ _ _ _ hcompleted
    · exact h.completed k k' workflowId position value leaf v hstored hcompleted
  case returned =>
    intro k k' workflowId position value v hstored hreturned hlt
    rcases hlogged hreturned with ⟨-, value', heq⟩ | hreturned
    · contradiction
    rcases hlogged hstored with ⟨rfl, -⟩ | hstored
    · have hle := hg.attempts _ _ _ _ hreturned
      omega
    · exact h.returned k k' workflowId position value v hstored hreturned hlt

/-- A call that waits for a reply goes on with the one to its request, or the
request failed after the task had ended. -/
theorem awaited_reply (h : s.Replays serializer) {f : Frame V} {a : Activity V}
    (he : s.Executing f a) (hc : s.current = some a) {input : Input V} (hi : s.Caused input)
    {turn : Turn V} (ht : a.execute.resume f.runner a.phase input = some turn)
    (hcalling : a.phase.calling = true) :
    ∃ m ∈ s.sent, m.request.leasePosition = some (f.runner.workflowId, f.runner.position) ∧
      (∀ k, a.phase = .leasing k → ∃ data, m.request = .leaseCheckpoint data) ∧
      ((∃ reply result now, m.reply = some reply ∧ GrpcAdapter.settle reply = some result ∧
          input = .reply result now) ∨
        a.phase.early = false ∧ ∃ err now, input = .reply (.error err) now) := by
  obtain ⟨n, m, hawaiting, hm, hplace, hlease⟩ := h.awaits f a he hcalling
  refine ⟨m, List.mem_of_getElem? hm, hplace, hlease, ?_⟩
  rcases hi with ⟨l, a', hc', hi, hfail⟩ | ⟨result, rfl⟩
  · rw [hc, Option.some.injEq] at hc'
    subst hc'
    cases hi with
    | @failed err now ha => exact .inr ⟨hfail err now rfl, _, _, rfl⟩
    | resumed ha =>
        rcases ha with ⟨⟨b, hrunning⟩, -⟩ | ha
        · rw [hrunning] at hcalling
          contradiction
        · rw [hawaiting] at ha
          contradiction
    | delivered ha ho =>
        rw [hawaiting, Option.some.injEq] at ha
        subst ha
        simp only [outcome, hm, Option.bind_eq_some_iff] at ho
        obtain ⟨reply, hreply, hsettle⟩ := ho
        exact .inl ⟨reply, _, _, hreply, hsettle, rfl⟩
  · -- No inner workflow runs while a reply is awaited.
    cases hphase : a.phase with
    | leasing k =>
        rw [hphase] at ht
        contradiction
    | releasing err =>
        rw [hphase] at ht
        contradiction
    | checkpointing leaseExpiry v value =>
        rw [hphase] at ht
        contradiction
    | _ =>
        rw [hphase] at hcalling
        contradiction

/-- A lease request for a position with a value from before is answered with it. -/
theorem leased_value (h : s.Replays serializer) {f : Frame V} {a : Activity V}
    (he : s.Executing f a) (hc : s.current = some a) {input : Input V} (hi : s.Caused input)
    {turn : Turn V} (ht : a.execute.resume f.runner a.phase input = some turn) {value : Bytes}
    (hold : s.Old f.runner.workflowId f.runner.position value) {k : Nat}
    (hleasing : a.phase = .leasing k) :
    ∃ remaining now, input =
      .reply (.ok (.leaseCheckpoint (some (.bytes value)) remaining)) now := by
  have hcalling : a.phase.calling = true := by
    rw [hleasing]
    rfl
  obtain ⟨m, hm, hplace, hlease, hreplied | ⟨hlate, -⟩⟩ := awaited_reply h he hc hi ht hcalling
  · obtain ⟨reply, result, now, hreply, hsettle, rfl⟩ := hreplied
    obtain ⟨data, hdata⟩ := hlease k hleasing
    rw [hdata, Request.leasePosition, Option.some.injEq, Prod.mk.injEq] at hplace
    rw [← hplace.1, ← hplace.2] at hold
    rw [h.replies m hm data value reply hdata hold hreply] at hsettle
    cases hsettle
    exact ⟨_, _, rfl⟩
  · rw [hleasing] at hlate
    contradiction

/-- A turn keeps a call replaying, or returns the value. -/
theorem replaying_turn {c : ExecuteCall} {r : Runner} {phase : Phase V} {input : Input V}
    {turn : Turn V} {value : Bytes} (ht : c.resume r phase input = some turn)
    (h : Replaying value phase)
    (hleased : ∀ k, phase = .leasing k → ∃ remaining now,
      input = .reply (.ok (.leaseCheckpoint (some (.bytes value)) remaining)) now)
    (hdeserialized : undeserialized input = false) :
    Replaying value turn.phase ∨ ∃ k v, phase = .deserializing (.bytes value) k ∧
      input = .deserialized (.ok v) ∧ turn.phase = .returned v := by
  cases h with
  | @leasing k =>
      obtain ⟨remaining, now, rfl⟩ := hleased k rfl
      cases ht
      exact .inl .deserializing
  | @deserializing k =>
      unfold ExecuteCall.resume at ht
      split at ht <;> try contradiction
      next hphase =>
        cases hphase
        cases ht
        exact .inr ⟨k, _, rfl, rfl, rfl⟩

/-- The request a call waits for is about its position. -/
theorem asked_of_calling {c : ExecuteCall} {r : Runner} {phase : Phase V} {input : Input V}
    {turn : Turn V} (ha : ExecuteCall.Advances c r phase input turn)
    (hcalling : turn.phase.calling = true) (wire : Wire) :
    ∃ call, turn.call = some call ∧
      (GrpcAdapter.request wire call).leasePosition = some (r.workflowId, r.position) ∧
      ∀ k, turn.phase = .leasing k → ∃ data, GrpcAdapter.request wire call =
        .leaseCheckpoint data := by
  obtain ⟨call, hcall⟩ := Option.isSome_iff_exists.mp (ha.call_isSome.trans hcalling)
  refine ⟨call, hcall, ?_, fun k hleasing => ?_⟩
  · rcases ha.call_cases hcall with ⟨k, -, -, rfl⟩ | ⟨leaseExpiry, v, value, -, -, rfl⟩ |
      ⟨beforeExecution, err, -, -, -, rfl⟩
    all_goals rfl
  · rw [(ha.leasing_cases hleasing).1] at hcall
    cases hcall
    exact ⟨_, rfl⟩

theorem old_of_take {f : Frame V} {fs : List (Frame V)} {a : Activity V} {input : Input V}
    {turn : Turn V} {workflowId : String} {position : Int} {value : Bytes}
    (h : (s.take wire f fs a input turn).Old workflowId position value) :
    s.Old workflowId position value := by
  obtain ⟨k, hk, hmem⟩ := h
  exact ⟨k, hk, stored_take.mp hmem⟩

theorem replays_turned (h : s.Replays serializer) {input : Input V}
    (hi : s.Caused input) (hallowed : s.Allowed serializer input)
    (ht : Turned wire s input s') :
    s'.Replays serializer := by
  cases ht with
  | @intro f fs a turn hs hf ht =>
      have ha := ExecuteCall.resume_cases ht
      have he : s.Executing f a := ⟨mem_head hs, hf⟩
      have hc := current_eq hs hf
      -- The call itself, where a value is stored from before.
      have hreplays : ∀ {value}, s.Old f.runner.workflowId f.runner.position value →
          Replaying value turn.phase ∨ ∃ k v, a.phase = .deserializing (.bytes value) k ∧
            input = .deserialized (.ok v) ∧ turn.phase = .returned v := by
        intro value hvalue
        exact replaying_turn ht (h.phases f a value he hvalue)
          (fun k hleasing => leased_value h he hc hi ht hvalue hleasing) hallowed.deserialized
      constructor
      case awaits =>
        intro f' a' he' hcalling
        rcases executing_take hs ha he' with ⟨hrunner, -, rfl⟩ | he'
        · obtain ⟨call, hcall, hplace, hlease⟩ := asked_of_calling ha hcalling wire
          refine ⟨s.sent.length, message wire call, ?_, ?_, ?_, hlease⟩
          · show (turn.call.map fun _ => s.sent.length) = some s.sent.length
            rw [hcall]
            rfl
          · show (s.sent ++ (turn.call.map (message wire)).toList)[s.sent.length]? = _
            rw [hcall]
            exact List.getElem?_concat_length
          · rw [hrunner]
            exact hplace
        · obtain ⟨n, m, hawaiting, hm, hplace⟩ := h.awaits f' a' he' hcalling
          exact ⟨n, m, hawaiting, append_some hm, hplace⟩
      case fits =>
        intro m hm response hreply
        rcases List.mem_append.mp hm with hm | hm
        · exact h.fits m hm response hreply
        · obtain ⟨call, -, rfl⟩ := mem_message hm
          contradiction
      case replies =>
        intro m hm data value reply hdata hvalue hreply
        rcases List.mem_append.mp hm with hm | hm
        · exact h.replies m hm data value reply hdata (old_of_take hvalue) hreply
        · obtain ⟨call, -, rfl⟩ := mem_message hm
          contradiction
      case phases =>
        intro f' a' value he' hvalue
        rcases executing_take hs ha he' with ⟨hrunner, hreturned, rfl⟩ | he'
        · rw [hrunner] at hvalue
          rcases hreplays (old_of_take hvalue) with hreplaying | ⟨k, v, -, -, hv⟩
          · exact hreplaying
          · exact absurd hv (hreturned v)
        · exact h.phases f' a' value he' (old_of_take hvalue)
      case ran =>
        intro k k' workflowId position value hstored hran
        rcases logged_take.mp hran with ⟨rfl, rfl, rfl, hfact⟩ | hran
        · rcases facts_cases hfact with ⟨v, -, heq⟩ | ⟨b, hrunning, -, -⟩ | ⟨b, v, -, -, heq⟩
          · contradiction
          · by_contra hlt
            rcases hreplays ⟨k, by omega, stored_take.mp hstored⟩ with
              hreplaying | ⟨j, v, -, -, hv⟩
            · rw [hrunning] at hreplaying
              contradiction
            · rw [hrunning] at hv
              contradiction
          · contradiction
        · exact h.ran k k' workflowId position value (stored_take.mp hstored) hran
      case completed =>
        intro k k' workflowId position value leaf v hstored hcompleted
        rcases logged_take.mp hcompleted with ⟨rfl, rfl, rfl, hfact⟩ | hcompleted
        · rcases facts_cases hfact with ⟨v, -, heq⟩ | ⟨b, -, -, heq⟩ | ⟨b, v, hrunning, -, -⟩
          · contradiction
          · contradiction
          · by_contra hlt
            have hreplaying := h.phases f a value he ⟨k, by omega, stored_take.mp hstored⟩
            rw [hrunning] at hreplaying
            contradiction
        · exact h.completed k k' workflowId position value leaf v
            (stored_take.mp hstored) hcompleted
      case returned =>
        intro k k' workflowId position value v hstored hreturned hlt
        rcases logged_take.mp hreturned with ⟨rfl, rfl, rfl, hfact⟩ | hreturned
        · rcases facts_cases hfact with ⟨v', hphase, heq⟩ | ⟨b, -, -, heq⟩ | ⟨b, v', -, -, heq⟩
          · cases heq
            rcases hreplays ⟨k, hlt, stored_take.mp hstored⟩ with
              hreplaying | ⟨j, w, hdeserializing, rfl, hw⟩
            · rw [hphase] at hreplaying
              contradiction
            · have hx := hallowed.explains a hc
              rw [hdeserializing] at hx
              rw [hphase, Phase.returned.injEq] at hw
              rw [hw]
              exact hx
          · contradiction
          · contradiction
        · exact h.returned k k' workflowId position value v
            (stored_take.mp hstored) hreturned hlt

theorem replays_begun (h : s.Replays serializer) {start : StartCall} {steps : Steps}
    (hs : s.frames = []) : (s.begun wire start steps).Replays serializer := by
  have hfresh : ∀ m ∈ (s.begun wire start steps).sent, m.reply = none := by
    intro m hm
    cases List.mem_singleton.mp hm
    rfl
  constructor
  case awaits => exact fun f a he => absurd he (not_executing hs)
  case phases => exact fun f a value he => absurd he (not_executing hs)
  case fits =>
    intro m hm response hreply
    rw [hfresh m hm] at hreply
    contradiction
  case replies =>
    intro m hm data value reply hdata hvalue hreply
    rw [hfresh m hm] at hreply
    contradiction
  case ran => exact h.ran
  case completed => exact h.completed
  case returned => exact h.returned

theorem replays_crash (h : s.Replays serializer) :
    ({ s with frames := [], opening := none, log := s.cuts ++ s.log } : Attempts V).Replays
      serializer := by
  have hlogged : ∀ {k workflowId position fact}, fact ≠ .cut →
      ({ s with frames := [], opening := none, log := s.cuts ++ s.log } : Attempts V).Logged
        k workflowId position fact → s.Logged k workflowId position fact := by
    intro k workflowId position fact hne hmem
    rcases logged_crash.mp hmem with ⟨heq, -⟩ | hold
    · exact absurd heq hne
    · exact hold
  constructor
  case awaits => exact fun f a he => absurd he.1 List.not_mem_nil
  case phases => exact fun f a value he => absurd he.1 List.not_mem_nil
  case fits => exact h.fits
  case replies =>
    intro m hm data value reply hdata hvalue hreply
    obtain ⟨k, hk, hmem⟩ := hvalue
    exact h.replies m hm data value reply hdata ⟨k, hk, hlogged (by simp) hmem⟩ hreply
  case ran =>
    exact fun k k' workflowId position value hstored hran =>
      h.ran k k' workflowId position value (hlogged (by simp) hstored) (hlogged (by simp) hran)
  case completed =>
    exact fun k k' workflowId position value leaf v hstored hcompleted =>
      h.completed k k' workflowId position value leaf v (hlogged (by simp) hstored)
        (hlogged (by simp) hcompleted)
  case returned =>
    exact fun k k' workflowId position value v hstored hreturned =>
      h.returned k k' workflowId position value v (hlogged (by simp) hstored)
        (hlogged (by simp) hreturned)

theorem replays_step (hm : Moved evictable wire s l s') (hok : s.Admitted serializer key l)
    (hg : s.Grounded key) (h : s.Replays serializer) : s'.Replays serializer := by
  have htail : ∀ {f : Frame V} {fs : List (Frame V)}, s.frames = f :: fs →
      ∀ {f' : Frame V} {a' : Activity V}, f' ∈ fs → f'.status = .executing a' →
      ∃ f₀ a₀, s.Executing f₀ a₀ ∧ f'.runner = f₀.runner ∧ a'.phase = a₀.phase ∧
        a'.awaiting = a₀.awaiting := by
    intro f fs hs f' a' hf' hstatus
    exact ⟨f', a', ⟨mem_tail hs hf', hstatus⟩, rfl, rfl, rfl⟩
  cases hm with
  | begun hs ho => exact replays_begun h hs
  | answered hf hn hr => exact replays_answer h hg hf hn
  | entered ho =>
      refine h.of_frames (fun _ _ hm => hm) (fun _ hm => .inl hm) fun f a hf hstatus => .inl ?_
      rcases List.mem_cons.mp hf with rfl | hf
      · contradiction
      · exact ⟨f, a, ⟨hf, hstatus⟩, rfl, rfl, rfl⟩
  | @called f fs execute task rest hs hf hr =>
      refine h.of_frames (fun _ _ hm => append_some hm) fresh_of_sent ?_
      intro f' a' hf' hstatus
      rcases List.mem_cons.mp hf' with rfl | hf'
      · cases hstatus
        exact .inr ⟨rfl, s.sent.length, _, rfl, List.getElem?_concat_length, rfl, _, rfl⟩
      · exact .inl (htail hs hf' hstatus)
  | @opened f fs a beforeExecution start steps hs hf hp ht =>
      refine h.of_frames (fun _ _ hm => append_some hm) fresh_of_sent ?_
      intro f' a' hf' hstatus
      rcases List.mem_cons.mp hf' with rfl | hf'
      · cases hstatus
        exact .inl ⟨f, a, ⟨mem_head hs, hf⟩, rfl, rfl, rfl⟩
      · exact .inl (htail hs hf' hstatus)
  | turned hc hi ht =>
      exact replays_turned h (caused_of_admitted hok hc hi) (allowed_of_admitted hok hc hi) ht
  | @completing f fs hs hf hr =>
      refine h.of_frames (fun _ _ hm => append_some hm) fresh_of_sent ?_
      intro f' a' hf' hstatus
      rcases List.mem_cons.mp hf' with rfl | hf'
      · contradiction
      · exact .inl (htail hs hf' hstatus)
  | ended hl hs => exact replays_left h hl
  | left hl ht =>
      exact replays_turned (replays_left h hl) (.inr ⟨_, rfl⟩)
        (allowed_taskSettled serializer _ _) ht
  | crashed => exact replays_crash h
  | ticked =>
      exact ⟨h.awaits, h.fits, h.replies, h.phases, h.ran, h.completed, h.returned⟩
  | evicted =>
      exact ⟨h.awaits, h.fits, h.replies, h.phases, h.ran, h.completed, h.returned⟩

end Replays

/-! ## Where values come from -/

/-- What is stored is what a body completed with, serialized. -/
structure Origins (serializer : Serializer V) (wire : Wire) (s : Attempts V) : Prop where
  results : ∀ f a v, s.Executing f a → a.phase.taskResult? = some (.ok v) →
    ∃ leaf, s.Logged s.attempt f.runner.workflowId f.runner.position (.completed leaf v)
  bytes : ∀ f a leaseExpiry v value, s.Executing f a →
    a.phase = .checkpointing leaseExpiry v value → value = serializer.serialize v
  checkpoints : ∀ m ∈ s.sent, ∀ data, m.request = .checkpoint data →
    ∃ leaf v, s.Logged s.attempt data.workflowId data.position (.completed leaf v) ∧
      data.value = GrpcAdapter.setValue wire (serializer.serialize v)
  stored : ∀ k workflowId position value, s.Logged k workflowId position (.stored value) →
    ∃ leaf v, s.Logged k workflowId position (.completed leaf v) ∧
      value = GrpcAdapter.setValue wire (serializer.serialize v)

section Origins

variable {serializer : Serializer V} {key : String → Int → String}
  {evictable : CachedLease → Int → Bool} {wire : Wire} {s s' : Attempts V} {l : AttemptLabel V}

theorem origins_initial (h : s.initial) : s.Origins serializer wire := by
  obtain ⟨now, rfl⟩ := h
  constructor <;> simp [Logged, Executing]

/-- A state with the same log, whose calls are the old ones or have no result,
and whose new requests are no checkpoints. -/
theorem Origins.of_frames (h : s.Origins serializer wire) {frames : List (Frame V)}
    {opening : Option (Nat × StartCall × Steps)} {sent : List Message}
    (hsent : ∀ m ∈ sent, m ∈ s.sent ∨ ∀ data, m.request ≠ .checkpoint data)
    (hexec : ∀ f a, f ∈ frames → f.status = .executing a →
      s.Executing f a ∨ a.phase.taskResult? = none) :
    ({ s with frames := frames, opening := opening, sent := sent } : Attempts V).Origins
      serializer wire := by
  constructor
  case results =>
    intro f a v he hresult
    rcases hexec f a he.1 he.2 with hold | hnone
    · exact h.results f a v hold hresult
    · rw [hnone] at hresult
      contradiction
  case bytes =>
    intro f a leaseExpiry v value he hphase
    rcases hexec f a he.1 he.2 with hold | hnone
    · exact h.bytes f a leaseExpiry v value hold hphase
    · rw [hphase] at hnone
      contradiction
  case checkpoints =>
    intro m hm data hdata
    rcases hsent m hm with hold | hno
    · exact h.checkpoints m hold data hdata
    · exact absurd hdata (hno data)
  case stored => exact h.stored

theorem origins_left (h : s.Origins serializer wire) {result : Except Thrown V}
    (hl : Left s result s') : s'.Origins serializer wire := by
  rcases hl.cases with ⟨f, fs, hs, -, rfl⟩ | rfl
  · exact h.of_frames (fun _ hm => .inl hm) fun f' a' hf' hstatus =>
      .inl ⟨mem_tail hs hf', hstatus⟩
  · exact h.of_frames (fun _ hm => .inl hm) fun f' a' hf' hstatus => .inl ⟨hf', hstatus⟩

theorem origins_answer (h : s.Origins serializer wire) (hg : s.Grounded key) {env : Env}
    (hf : env.fault = .none) {n : Nat} {m : Message} (hn : s.sent[n]? = some m) :
    (s.answer env n m).Origins serializer wire := by
  have hclean := not_cleanUp_of_keyedBy (hg.sent m (List.mem_of_getElem? hn))
  have hlogged : ∀ {k workflowId position fact}, s.Logged k workflowId position fact →
      (s.answer env n m).Logged k workflowId position fact := fun hold =>
        logged_answer.mpr (.inr hold)
  constructor
  case results =>
    intro f a v he hresult
    obtain ⟨leaf, hcompleted⟩ := h.results f a v he hresult
    exact ⟨leaf, hlogged hcompleted⟩
  case bytes => exact h.bytes
  case checkpoints =>
    intro m' hm' data hdata
    have hmem : ∃ m₀ ∈ s.sent, m₀.request = m'.request := by
      rcases List.mem_or_eq_of_mem_set hm' with hold | rfl
      · exact ⟨m', hold, rfl⟩
      · exact ⟨m, List.mem_of_getElem? hn, rfl⟩
    obtain ⟨m₀, hm₀, heq⟩ := hmem
    obtain ⟨leaf, v, hcompleted, hvalue⟩ := h.checkpoints m₀ hm₀ data (heq.trans hdata)
    exact ⟨leaf, v, hlogged hcompleted, hvalue⟩
  case stored =>
    intro k workflowId position value hstored
    rcases logged_answer.mp hstored with ⟨rfl, value', heq, hmem⟩ | hold
    · cases heq
      obtain ⟨data, hdata, rfl, rfl, hnone, row, hrow, hvalue⟩ := mem_storedFact.mp hmem
      obtain ⟨leaf, v, hcompleted, hbytes⟩ :=
        h.checkpoints m (List.mem_of_getElem? hn) data hdata
      refine ⟨leaf, v, hlogged hcompleted, ?_⟩
      -- The row is the one of the request.
      rcases handle_checkpoints_cases hf s.world hclean data.workflowId data.position with
        hsame | ⟨old, hold, -⟩ | ⟨-, ⟨data', hdata', -, -, -, hnew⟩ | ⟨data', hdata', -⟩⟩
      · rw [hsame, hnone] at hrow
        contradiction
      · rw [hnone] at hold
        contradiction
      · rw [hdata, Request.checkpoint.injEq] at hdata'
        subst hdata'
        rw [hnew, Option.some.injEq] at hrow
        subst hrow
        rw [← hbytes]
        exact (Option.some.inj hvalue).symm
      · rw [hdata] at hdata'
        contradiction
    · obtain ⟨leaf, v, hcompleted, hvalue⟩ := h.stored k workflowId position value hold
      exact ⟨leaf, v, hlogged hcompleted, hvalue⟩

theorem origins_turned (h : s.Origins serializer wire) {input : Input V}
    (hallowed : s.Allowed serializer input) (ht : Turned wire s input s') :
    s'.Origins serializer wire := by
  cases ht with
  | @intro f fs a turn hs hf ht =>
      have ha := ExecuteCall.resume_cases ht
      have he : s.Executing f a := ⟨mem_head hs, hf⟩
      have hlogged : ∀ {k workflowId position fact}, s.Logged k workflowId position fact →
          (s.take wire f fs a input turn).Logged k workflowId position fact :=
        fun hold => logged_take.mpr (.inr hold)
      have hbytes : ∀ {leaseExpiry v value}, turn.phase = .checkpointing leaseExpiry v value →
          value = serializer.serialize v := by
        intro leaseExpiry v value hphase
        rcases ha.checkpointing_cases hphase with ⟨b, now, hserializing, rfl⟩ | hold
        · have hx := hallowed.explains a (current_eq hs hf)
          rw [hserializing] at hx
          exact hx
        · exact h.bytes f a leaseExpiry v value he hold
      constructor
      case results =>
        intro f' a' v he' hresult
        rcases executing_take hs ha he' with ⟨hrunner, -, rfl⟩ | he'
        · rw [hrunner]
          rcases ha.taskResult_cases hresult with hold | ⟨b, hrunning, rfl⟩
          · obtain ⟨leaf, hcompleted⟩ := h.results f a v he hold
            exact ⟨leaf, hlogged hcompleted⟩
          · refine ⟨a.isLeaf, logged_take.mpr (.inl ⟨rfl, rfl, rfl, ?_⟩)⟩
            refine List.mem_append_right _ ?_
            rw [hrunning]
            exact List.mem_singleton_self _
        · obtain ⟨leaf, hcompleted⟩ := h.results f' a' v he' hresult
          exact ⟨leaf, hlogged hcompleted⟩
      case bytes =>
        intro f' a' leaseExpiry v value he' hphase
        rcases executing_take hs ha he' with ⟨-, -, rfl⟩ | he'
        · exact hbytes hphase
        · exact h.bytes f' a' leaseExpiry v value he' hphase
      case checkpoints =>
        intro m hm data hdata
        rcases List.mem_append.mp hm with hm | hm
        · obtain ⟨leaf, v, hcompleted, hvalue⟩ := h.checkpoints m hm data hdata
          exact ⟨leaf, v, hlogged hcompleted, hvalue⟩
        · obtain ⟨call, hcall, rfl⟩ := mem_message hm
          rcases ha.call_cases hcall with
            ⟨k, -, -, rfl⟩ | ⟨leaseExpiry, v, value, hphase, hresult, rfl⟩ |
            ⟨beforeExecution, err, -, -, -, rfl⟩
          · contradiction
          · cases hdata
            obtain ⟨leaf, hcompleted⟩ := h.results f a v he hresult
            refine ⟨leaf, v, hlogged hcompleted, ?_⟩
            rw [← hbytes hphase]
          · contradiction
      case stored =>
        intro k workflowId position value hstored
        obtain ⟨leaf, v, hcompleted, hvalue⟩ :=
          h.stored k workflowId position value (stored_take.mp hstored)
        exact ⟨leaf, v, hlogged hcompleted, hvalue⟩

theorem origins_step (hm : Moved evictable wire s l s') (hok : s.Admitted serializer key l)
    (hg : s.Grounded key) (h : s.Origins serializer wire) : s'.Origins serializer wire := by
  have hsends : ∀ {call : AdapterCall} {m : Message},
      (∀ data, GrpcAdapter.request wire call ≠ .checkpoint data) →
      m ∈ s.sent ++ [message wire call] → m ∈ s.sent ∨
        ∀ data, m.request ≠ .checkpoint data := by
    intro call m hno hm
    rcases mem_sent_concat hm with hold | rfl
    · exact .inl hold
    · exact .inr hno
  cases hm with
  | @begun start steps hs ho =>
      constructor
      case results => exact fun f a v he => absurd he (not_executing hs)
      case bytes => exact fun f a leaseExpiry v value he => absurd he (not_executing hs)
      case checkpoints =>
        intro m hm data hdata
        cases List.mem_singleton.mp hm
        contradiction
      case stored => exact h.stored
  | answered hf hn hr => exact origins_answer h hg hf hn
  | entered ho =>
      refine h.of_frames (fun _ hm => .inl hm) fun f a hf hstatus => .inl ?_
      rcases List.mem_cons.mp hf with rfl | hf
      · contradiction
      · exact ⟨hf, hstatus⟩
  | @called f fs execute task rest hs hf hr =>
      refine h.of_frames (fun _ hm => hsends (fun _ heq => by contradiction) hm) ?_
      intro f' a' hf' hstatus
      rcases List.mem_cons.mp hf' with rfl | hf'
      · cases hstatus
        exact .inr rfl
      · exact .inl (⟨mem_tail hs hf', hstatus⟩)
  | @opened f fs a beforeExecution start steps hs hf hp ht =>
      refine h.of_frames (fun _ hm => hsends (fun _ heq => by contradiction) hm) ?_
      intro f' a' hf' hstatus
      rcases List.mem_cons.mp hf' with rfl | hf'
      · cases hstatus
        right
        show a.phase.taskResult? = none
        rw [hp]
        rfl
      · exact .inl (⟨mem_tail hs hf', hstatus⟩)
  | turned hc hi ht => exact origins_turned h (allowed_of_admitted hok hc hi) ht
  | @completing f fs hs hf hr =>
      refine h.of_frames (fun _ hm => hsends (fun _ heq => by contradiction) hm) ?_
      intro f' a' hf' hstatus
      rcases List.mem_cons.mp hf' with rfl | hf'
      · contradiction
      · exact .inl (⟨mem_tail hs hf', hstatus⟩)
  | ended hl hs => exact origins_left h hl
  | left hl ht =>
      exact origins_turned (origins_left h hl) (allowed_taskSettled serializer _ _) ht
  | crashed =>
      constructor
      case results => exact fun f a v he => absurd he.1 List.not_mem_nil
      case bytes => exact fun f a leaseExpiry v value he => absurd he.1 List.not_mem_nil
      case checkpoints =>
        intro m hm data hdata
        obtain ⟨leaf, v, hcompleted, hvalue⟩ := h.checkpoints m hm data hdata
        exact ⟨leaf, v, logged_crash.mpr (.inr hcompleted), hvalue⟩
      case stored =>
        intro k workflowId position value hstored
        rcases logged_crash.mp hstored with ⟨heq, -⟩ | hold
        · contradiction
        · obtain ⟨leaf, v, hcompleted, hvalue⟩ := h.stored k workflowId position value hold
          exact ⟨leaf, v, logged_crash.mpr (.inr hcompleted), hvalue⟩
  | ticked => exact ⟨h.results, h.bytes, h.checkpoints, h.stored⟩
  | evicted => exact ⟨h.results, h.bytes, h.checkpoints, h.stored⟩

end Origins

end Attempts

end IdempotentTransformer
