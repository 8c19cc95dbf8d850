import IdempotentTransformer.Interleaving

/-!
# IdempotentTransformer.Cleanup

Any number of overlapping `handle_workflow_cleanup` runs, one statement at a
time, any of which may fail, and no other requests.

* `CleanUpCalls` is what one run keeps to: all its statements use one reading
  of the clock, and the workflows are deleted only after both deletes of
  their children were acknowledged;
* `Swept` is how far the runs have come from the world they started in:
  what is gone had expired, and children go first;
* `cleanup_exact` — cleanup deletes what has expired and nothing else, and a
  run that succeeds makes up for those that did not.
-/

namespace IdempotentTransformer

open Library Program

variable {evictable : CachedLease → Int → Bool}

/-! ## One run -/

/-- The timestamp of a cleanup statement. -/
def StorageCall.timestamp? : StorageCall → Option Int
  | .deleteFencingTokens currentTimestamp _ => some currentTimestamp
  | .deleteCheckpoints currentTimestamp _ => some currentTimestamp
  | .deleteWorkflows currentTimestamp _ => some currentTimestamp
  | _ => none

/-- `WorkflowStatus::Completed as i8`. -/
abbrev completed : Int := WorkflowStatus.Completed.toInt

/-- What the statements of a cleanup run rest on. -/
def CleanUpCalls (log : CallLog) : StorageCall → Prop
  | .isLeaderDb => True
  | .utcNow => True
  | .deleteFencingTokens currentTimestamp status =>
      status = completed ∧ Replied log .utcNow currentTimestamp
  | .deleteCheckpoints currentTimestamp status =>
      status = completed ∧ Replied log .utcNow currentTimestamp
  | .deleteWorkflows currentTimestamp status =>
      status = completed ∧ Replied log .utcNow currentTimestamp ∧
        Replied log (.deleteFencingTokens currentTimestamp completed) (Except.ok ()) ∧
        Replied log (.deleteCheckpoints currentTimestamp completed) (Except.ok ())
  | _ => False

theorem cleanUpCalls_stable : Stable CleanUpCalls := by
  intro log log' call hl h
  cases call with
  | deleteFencingTokens currentTimestamp status => exact ⟨h.1, h.2.mono hl⟩
  | deleteCheckpoints currentTimestamp status => exact ⟨h.1, h.2.mono hl⟩
  | deleteWorkflows currentTimestamp status =>
      obtain ⟨hstatus, hnow, htokens, hcheckpoints⟩ := h
      exact ⟨hstatus, hnow.mono hl, htokens.mono hl, hcheckpoints.mono hl⟩
  | _ => exact h

/-- **Every cleanup run keeps to it.** -/
theorem obeys_cleanUpCalls :
    Program.Obeys CleanUpCalls (fun _ _ => True) [] Request.cleanUp.handler.program := by
  show (handleWorkflowCleanup >>=
    fun _ => (pure .cleanUp : Handler Response)).Obeys CleanUpCalls (fun _ _ => True) []
  rw [Handler.obeys_bind, handleWorkflowCleanup, Handler.obeys_bind, obeys_isLeaderDb]
  refine ⟨trivial, fun leader => ?_⟩
  cases leader with
  | false => trivial
  | true =>
      simp only [Handler.Then, Bool.not_true, Bool.false_eq_true, if_false, Handler.obeys_bind,
        obeys_utcNow]
      refine ⟨trivial, fun now => ?_⟩
      have hnow : Replied (⟨.utcNow, now⟩ :: [⟨.isLeaderDb, true⟩]) .utcNow now := replied_self
      refine Handler.obeys_join cleanUpCalls_stable
        (A := fun log r => r = .ok () →
          Replied log (.deleteFencingTokens now completed) (Except.ok ()))
        (B := fun log r => r = .ok () →
          Replied log (.deleteCheckpoints now completed) (Except.ok ()))
        (fun _ _ _ hl h hr => (h hr).mono hl) (fun _ _ _ hl h hr => (h hr).mono hl) ?_ ?_ ?_
      · refine ⟨⟨rfl, hnow⟩, fun r hr => ?_⟩
        cases r with
        | error e => cases hr
        | ok u => exact replied_self
      · refine ⟨⟨rfl, hnow⟩, fun r hr => ?_⟩
        cases r with
        | error e => cases hr
        | ok u => exact replied_self
      · intro log tokens checkpoints hl htokens hcheckpoints
        cases tokens with
        | error e => trivial
        | ok u =>
            cases checkpoints with
            | error e => trivial
            | ok u' =>
                refine ⟨⟨rfl, hnow.mono hl, htokens rfl, hcheckpoints rfl⟩, fun r => ?_⟩
                cases r <;> trivial

/-! ## How far cleanup has come -/

/-- Rows of the world `w₀` are gone only where they had expired at one of the
timestamps used, and a workflow's row only with everything of it. -/
structure World.Swept (w₀ : World) (used : Int → Prop) (w : World) : Prop where
  workflows : ∀ id, w.workflows id = w₀.workflows id ∨
    w.workflows id = none ∧ ∃ t, used t ∧ w₀.expired t completed id = true
  fencingTokens : ∀ id, w.fencingTokens id = w₀.fencingTokens id ∨
    w.fencingTokens id = none ∧ ∃ t, used t ∧ w₀.expired t completed id = true
  checkpoints : ∀ id position, w.checkpoints id position = w₀.checkpoints id position ∨
    w.checkpoints id position = none ∧ ∃ t, used t ∧ w₀.expired t completed id = true
  children : ∀ id, w.workflows id ≠ w₀.workflows id →
    w.fencingTokens id = none ∧ ∀ position, w.checkpoints id position = none

/-- Nothing of what had expired at `t` is left of a table. -/
def World.TokensGone (w₀ : World) (t : Int) (w : World) : Prop :=
  ∀ id, w₀.expired t completed id = true → w.fencingTokens id = none

def World.CheckpointsGone (w₀ : World) (t : Int) (w : World) : Prop :=
  ∀ id, w₀.expired t completed id = true → ∀ position, w.checkpoints id position = none

def World.WorkflowsGone (w₀ : World) (t : Int) (w : World) : Prop :=
  ∀ id, w₀.expired t completed id = true → w.workflows id = none

namespace World.Swept

variable {w₀ w : World} {used used' : Int → Prop}

theorem refl (w₀ : World) (used : Int → Prop) : w₀.Swept used w₀ where
  workflows := fun _ => .inl rfl
  fencingTokens := fun _ => .inl rfl
  checkpoints := fun _ _ => .inl rfl
  children := fun _ h => absurd rfl h

theorem mono (h : w₀.Swept used w) (hu : ∀ t, used t → used' t) : w₀.Swept used' w where
  workflows := fun id => (h.workflows id).imp_right fun ⟨hn, t, ht, he⟩ => ⟨hn, t, hu t ht, he⟩
  fencingTokens := fun id =>
    (h.fencingTokens id).imp_right fun ⟨hn, t, ht, he⟩ => ⟨hn, t, hu t ht, he⟩
  checkpoints := fun id position =>
    (h.checkpoints id position).imp_right fun ⟨hn, t, ht, he⟩ => ⟨hn, t, hu t ht, he⟩
  children := h.children

/-- Only the tables matter. -/
theorem congr {w' : World} (h : w₀.Swept used w) (hworkflows : w'.workflows = w.workflows)
    (htokens : w'.fencingTokens = w.fencingTokens)
    (hcheckpoints : w'.checkpoints = w.checkpoints) :
    w₀.Swept used w' := by
  constructor
  · rw [hworkflows]
    exact h.workflows
  · rw [htokens]
    exact h.fencingTokens
  · rw [hcheckpoints]
    exact h.checkpoints
  · rw [hworkflows, htokens, hcheckpoints]
    exact h.children

/-- A row that is found expired is one of `w₀`, and was expired there. -/
theorem expired_of_expired (h : w₀.Swept used w) {t : Int} {id : String}
    (he : w.expired t completed id = true) : w₀.expired t completed id = true := by
  rcases h.workflows id with hsame | ⟨hnone, -⟩
  · rw [World.expired, ← hsame]
    exact he
  · rw [World.expired, hnone] at he
    contradiction

/-- A row of `w₀` that had expired is found expired, or it is gone. -/
theorem expired_or_gone {t : Int} {id : String}
    (he : w₀.expired t completed id = true) :
    w.expired t completed id = true ∨ w.workflows id ≠ w₀.workflows id := by
  by_cases hsame : w.workflows id = w₀.workflows id
  · left
    rw [World.expired, hsame]
    exact he
  · exact .inr hsame

/-- What `deleteFencingTokens` leaves. -/
theorem deleteFencingTokens (h : w₀.Swept used w) {t : Int} (ht : used t) :
    w₀.Swept used { w with
      fencingTokens := fun id =>
        if w.expired t completed id then none else w.fencingTokens id } ∧
    w₀.TokensGone t { w with
      fencingTokens := fun id =>
        if w.expired t completed id then none else w.fencingTokens id } := by
  constructor
  · constructor
    case workflows => exact h.workflows
    case checkpoints => exact h.checkpoints
    case fencingTokens =>
      intro id
      dsimp only
      split
      · next he => exact .inr ⟨rfl, t, ht, h.expired_of_expired he⟩
      · exact h.fencingTokens id
    case children =>
      intro id hgone
      obtain ⟨htoken, hcheckpoints⟩ := h.children id hgone
      exact ⟨by simp [htoken], hcheckpoints⟩
  · intro id he
    rcases expired_or_gone (w := w) he with hfound | hgone
    · exact if_pos hfound
    · simp [(h.children id hgone).1]

/-- What `deleteCheckpoints` leaves. -/
theorem deleteCheckpoints (h : w₀.Swept used w) {t : Int} (ht : used t) :
    w₀.Swept used { w with
      checkpoints := fun id position =>
        if w.expired t completed id then none else w.checkpoints id position } ∧
    w₀.CheckpointsGone t { w with
      checkpoints := fun id position =>
        if w.expired t completed id then none else w.checkpoints id position } := by
  constructor
  · constructor
    case workflows => exact h.workflows
    case fencingTokens => exact h.fencingTokens
    case checkpoints =>
      intro id position
      dsimp only
      split
      · next he => exact .inr ⟨rfl, t, ht, h.expired_of_expired he⟩
      · exact h.checkpoints id position
    case children =>
      intro id hgone
      obtain ⟨htoken, hcheckpoints⟩ := h.children id hgone
      exact ⟨htoken, fun position => by simp [hcheckpoints position]⟩
  · intro id he position
    rcases expired_or_gone (w := w) he with hfound | hgone
    · exact if_pos hfound
    · simp [(h.children id hgone).2 position]

/-- What `deleteWorkflows` leaves, once the children are gone. -/
theorem deleteWorkflows (h : w₀.Swept used w) {t : Int} (ht : used t)
    (htokens : w₀.TokensGone t w) (hcheckpoints : w₀.CheckpointsGone t w) :
    w₀.Swept used { w with
      workflows := fun id => if w.expired t completed id then none else w.workflows id } ∧
    w₀.WorkflowsGone t { w with
      workflows := fun id => if w.expired t completed id then none else w.workflows id } := by
  constructor
  · constructor
    case fencingTokens => exact h.fencingTokens
    case checkpoints => exact h.checkpoints
    case workflows =>
      intro id
      dsimp only
      split
      · next he => exact .inr ⟨rfl, t, ht, h.expired_of_expired he⟩
      · exact h.workflows id
    case children =>
      intro id hgone
      dsimp only at hgone
      split at hgone
      · next he =>
          have hexpired := h.expired_of_expired he
          exact ⟨htokens id hexpired, hcheckpoints id hexpired⟩
      · exact h.children id hgone
  · intro id he
    rcases expired_or_gone (w := w) he with hfound | hgone
    · exact if_pos hfound
    · rcases h.workflows id with hsame | ⟨hnone, -⟩
      · exact absurd hsame hgone
      · simp [hnone]

/-- What had not expired at the newest timestamp is untouched. -/
theorem untouched (h : w₀.Swept used w) {newest : Int} (hnewest : ∀ t, used t → t ≤ newest)
    {id : String} (hlive : w₀.expired newest completed id = false) :
    w.workflows id = w₀.workflows id ∧ w.fencingTokens id = w₀.fencingTokens id ∧
      w.checkpoints id = w₀.checkpoints id := by
  have hnever : ¬ ∃ t, used t ∧ w₀.expired t completed id = true := by
    rintro ⟨t, ht, he⟩
    obtain ⟨row, expireAt, hrow, hexpire, hlt, hstatus⟩ := World.expired_iff.mp he
    have hexpired : w₀.expired newest completed id = true :=
      World.expired_iff.mpr ⟨row, expireAt, hrow, hexpire, hlt.trans_le (hnewest t ht), hstatus⟩
    rw [hlive] at hexpired
    contradiction
  refine ⟨?_, ?_, funext fun position => ?_⟩
  · exact (h.workflows id).resolve_right fun hgone => hnever hgone.2
  · exact (h.fencingTokens id).resolve_right fun hgone => hnever hgone.2
  · exact (h.checkpoints id position).resolve_right fun hgone => hnever hgone.2

end World.Swept

/-! ## Runs -/

/-- The timestamps of the statements of a record. -/
def Used (trace : List StorageEvent) (t : Int) : Prop :=
  ∃ e ∈ trace, e.op.timestamp? = some t

/-- The record of cleanup runs, and the world they have come to from `w₀`. -/
structure Sweeping (evictable : CachedLease → Int → Bool) (w₀ : World)
    (trace : List StorageEvent) (w : World) : Prop where
  read : ∀ pid (t : Int), Replied (Pool.logOf pid trace) .utcNow t → t ≤ w.now
  used : ∀ t, Used trace t → t ≤ w.now
  /-- But for the tables, the world has only drifted. -/
  drifted : World.Drifts evictable
    { w₀ with
      workflows := w.workflows, fencingTokens := w.fencingTokens
      checkpoints := w.checkpoints } w
  swept : w₀.Swept (Used trace) w
  /-- What an acknowledged statement was to delete is gone. -/
  tokens : ∀ pid t, Replied (Pool.logOf pid trace) (.deleteFencingTokens t completed)
    (Except.ok ()) → w₀.TokensGone t w
  checkpoints : ∀ pid t, Replied (Pool.logOf pid trace) (.deleteCheckpoints t completed)
    (Except.ok ()) → w₀.CheckpointsGone t w
  workflows : ∀ pid t, Replied (Pool.logOf pid trace) (.deleteWorkflows t completed)
    (Except.ok ()) → w₀.WorkflowsGone t w

/-- A reply in a log that has one more operation. -/
theorem replied_cons {e : StorageEvent} {trace : List StorageEvent} {pid : Nat}
    {call : StorageCall} {reply : call.Reply}
    (h : Replied (Pool.logOf pid (e :: trace)) call reply) :
    Replied (Pool.logOf pid trace) call reply ∨
      (⟨call, reply⟩ : (op : StorageCall) × op.Reply) = ⟨e.op, e.reply⟩ := by
  by_cases hp : e.pid = pid
  · rw [Pool.logOf_cons_self hp] at h
    rcases List.mem_cons.mp h with hhead | htail
    · exact .inr hhead
    · exact .inl htail
  · rw [Pool.logOf_cons_ne hp] at h
    exact .inl h

namespace Sweeping

variable {w₀ w : World} {trace : List StorageEvent}

theorem start (w₀ : World) : Sweeping evictable w₀ [] w₀ where
  read := fun _ _ h => by simp [Pool.logOf, Replied] at h
  used := fun _ ⟨_, h, _⟩ => by simp at h
  drifted := .refl w₀
  swept := .refl w₀ _
  tokens := fun _ _ h => by simp [Pool.logOf, Replied] at h
  checkpoints := fun _ _ h => by simp [Pool.logOf, Replied] at h
  workflows := fun _ _ h => by simp [Pool.logOf, Replied] at h

/-- Drift leaves the tables alone. -/
theorem drift (h : Sweeping evictable w₀ trace w) {w' : World} (hd : w.Drifts evictable w') :
    Sweeping evictable w₀ trace w' where
  read := fun pid t ht => (h.read pid t ht).trans hd.now
  used := fun t ht => (h.used t ht).trans hd.now
  drifted := by
    rw [hd.workflows, hd.fencingTokens, hd.checkpoints]
    exact h.drifted.trans hd
  swept := h.swept.congr hd.workflows hd.fencingTokens hd.checkpoints
  tokens := fun pid t ht id he => by rw [hd.fencingTokens, h.tokens pid t ht id he]
  checkpoints := fun pid t ht id he position => by
    rw [hd.checkpoints, h.checkpoints pid t ht id he position]
  workflows := fun pid t ht id he => by rw [hd.workflows, h.workflows pid t ht id he]

/-- What is gone of a table stays gone. -/
theorem exec_gone {log : CallLog} {op : StorageCall} (env : Env) (hcalls : CleanUpCalls log op)
    (t : Int) :
    (w₀.TokensGone t w → w₀.TokensGone t (op.exec env w).2) ∧
      (w₀.CheckpointsGone t w → w₀.CheckpointsGone t (op.exec env w).2) ∧
      (w₀.WorkflowsGone t w → w₀.WorkflowsGone t (op.exec env w).2) := by
  cases op with
  | isLeaderDb => exact ⟨id, id, id⟩
  | utcNow => exact ⟨id, id, id⟩
  | deleteFencingTokens currentTimestamp status =>
      refine ⟨fun h => ?_, fun h => ?_, fun h => ?_⟩
      · exact StorageCall.exec_preserves env _ w (w₀.TokensGone t) h fun _ id he => by
          simp [StorageCall.effect, StorageCall.exec, Fault.apply, h id he]
      · exact StorageCall.exec_preserves env _ w (w₀.CheckpointsGone t) h fun _ => h
      · exact StorageCall.exec_preserves env _ w (w₀.WorkflowsGone t) h fun _ => h
  | deleteCheckpoints currentTimestamp status =>
      refine ⟨fun h => ?_, fun h => ?_, fun h => ?_⟩
      · exact StorageCall.exec_preserves env _ w (w₀.TokensGone t) h fun _ => h
      · exact StorageCall.exec_preserves env _ w (w₀.CheckpointsGone t) h
          fun _ id he position => by
          simp [StorageCall.effect, StorageCall.exec, Fault.apply, h id he position]
      · exact StorageCall.exec_preserves env _ w (w₀.WorkflowsGone t) h fun _ => h
  | deleteWorkflows currentTimestamp status =>
      refine ⟨fun h => ?_, fun h => ?_, fun h => ?_⟩
      · exact StorageCall.exec_preserves env _ w (w₀.TokensGone t) h fun _ => h
      · exact StorageCall.exec_preserves env _ w (w₀.CheckpointsGone t) h fun _ => h
      · exact StorageCall.exec_preserves env _ w (w₀.WorkflowsGone t) h fun _ id he => by
          simp [StorageCall.effect, StorageCall.exec, Fault.apply, h id he]
  | _ => exact hcalls.elim

/-- A cleanup statement changes nothing but the tables. -/
theorem exec_drifted {log : CallLog} {op : StorageCall} (env : Env)
    (hcalls : CleanUpCalls log op) :
    (op.exec env w).2.cache = w.cache := by
  cases op with
  | isLeaderDb => rfl
  | utcNow => rfl
  | deleteFencingTokens currentTimestamp status =>
      exact StorageCall.exec_preserves env _ w (fun w' => w'.cache = w.cache) rfl fun _ => rfl
  | deleteCheckpoints currentTimestamp status =>
      exact StorageCall.exec_preserves env _ w (fun w' => w'.cache = w.cache) rfl fun _ => rfl
  | deleteWorkflows currentTimestamp status =>
      exact StorageCall.exec_preserves env _ w (fun w' => w'.cache = w.cache) rfl fun _ => rfl
  | _ => exact hcalls.elim

/-- A cleanup statement, acknowledged or not, and what it deletes if it is. -/
theorem exec_swept {used : Int → Prop} (h : w₀.Swept used w) {log : CallLog} {op : StorageCall}
    (env : Env) (hcalls : CleanUpCalls log op) (hused : ∀ t, op.timestamp? = some t → used t)
    (htokens : ∀ t, Replied log (.deleteFencingTokens t completed) (Except.ok ()) →
      w₀.TokensGone t w)
    (hcheckpoints : ∀ t, Replied log (.deleteCheckpoints t completed) (Except.ok ()) →
      w₀.CheckpointsGone t w) :
    w₀.Swept used (op.exec env w).2 ∧
      ∀ t, ((⟨op, (op.exec env w).1⟩ : (op : StorageCall) × op.Reply) =
            ⟨.deleteFencingTokens t completed, Except.ok ()⟩ →
          w₀.TokensGone t (op.exec env w).2) ∧
        ((⟨op, (op.exec env w).1⟩ : (op : StorageCall) × op.Reply) =
            ⟨.deleteCheckpoints t completed, Except.ok ()⟩ →
          w₀.CheckpointsGone t (op.exec env w).2) ∧
        ((⟨op, (op.exec env w).1⟩ : (op : StorageCall) × op.Reply) =
            ⟨.deleteWorkflows t completed, Except.ok ()⟩ →
          w₀.WorkflowsGone t (op.exec env w).2) := by
  cases op with
  | isLeaderDb => exact ⟨h, fun t => ⟨nofun, nofun, nofun⟩⟩
  | utcNow => exact ⟨h, fun t => ⟨nofun, nofun, nofun⟩⟩
  | deleteFencingTokens currentTimestamp status =>
      obtain ⟨rfl, -⟩ := hcalls
      obtain ⟨hswept, hgone⟩ := h.deleteFencingTokens (hused currentTimestamp rfl)
      refine ⟨StorageCall.exec_preserves env _ w (w₀.Swept used) h fun _ => hswept,
        fun t => ⟨fun heq => ?_, nofun, nofun⟩⟩
      have hafter := (Fault.apply_eq_ok (StorageCall.exec_of_eq heq)).2
      cases congrArg Sigma.fst heq
      rw [hafter]
      exact hgone
  | deleteCheckpoints currentTimestamp status =>
      obtain ⟨rfl, -⟩ := hcalls
      obtain ⟨hswept, hgone⟩ := h.deleteCheckpoints (hused currentTimestamp rfl)
      refine ⟨StorageCall.exec_preserves env _ w (w₀.Swept used) h fun _ => hswept,
        fun t => ⟨nofun, fun heq => ?_, nofun⟩⟩
      have hafter := (Fault.apply_eq_ok (StorageCall.exec_of_eq heq)).2
      cases congrArg Sigma.fst heq
      rw [hafter]
      exact hgone
  | deleteWorkflows currentTimestamp status =>
      obtain ⟨rfl, -, hdeleted, hdeleted'⟩ := hcalls
      obtain ⟨hswept, hgone⟩ := h.deleteWorkflows (hused currentTimestamp rfl)
        (htokens currentTimestamp hdeleted) (hcheckpoints currentTimestamp hdeleted')
      refine ⟨StorageCall.exec_preserves env _ w (w₀.Swept used) h fun _ => hswept,
        fun t => ⟨nofun, nofun, fun heq => ?_⟩⟩
      have hafter := (Fault.apply_eq_ok (StorageCall.exec_of_eq heq)).2
      cases congrArg Sigma.fst heq
      rw [hafter]
      exact hgone
  | _ => exact hcalls.elim

/-- The timestamp of a statement is one the run has read. -/
theorem replied_of_timestamp {log : CallLog} {op : StorageCall} (hcalls : CleanUpCalls log op)
    {t : Int} (ht : op.timestamp? = some t) : Replied log .utcNow t := by
  cases op with
  | deleteFencingTokens currentTimestamp status => cases ht; exact hcalls.2
  | deleteCheckpoints currentTimestamp status => cases ht; exact hcalls.2
  | deleteWorkflows currentTimestamp status => cases ht; exact hcalls.2.1
  | _ => contradiction

/-- A storage call as the record has it. -/
def recorded (env : Env) (pid : Nat) (tag : Request) (op : StorageCall) (w : World) :
    StorageEvent :=
  { pid := pid, tag := tag, op := op, reply := (op.exec env w).1, before := w
    after := (op.exec env w).2 }

/-- **One more operation of a cleanup run.** -/
theorem perform (h : Sweeping evictable w₀ trace w) {pid : Nat} (tag : Request)
    {op : StorageCall} (env : Env) (hcalls : CleanUpCalls (Pool.logOf pid trace) op) :
    Sweeping evictable w₀ (recorded env pid tag op w :: trace) (op.exec env w).2 := by
  have hnow : (op.exec env w).2.now = w.now := StorageCall.exec_now env op w
  have hused : ∀ t, op.timestamp? = some t → t ≤ w.now := fun t ht =>
    h.read pid t (replied_of_timestamp hcalls ht)
  have hswept : w₀.Swept (Used (recorded env pid tag op w :: trace)) w :=
    h.swept.mono fun t ⟨e, he, ht⟩ => ⟨e, List.mem_cons_of_mem _ he, ht⟩
  obtain ⟨hafter, hgone⟩ := exec_swept hswept env hcalls
    (fun t ht => ⟨_, List.mem_cons_self, ht⟩) (h.tokens pid) (h.checkpoints pid)
  constructor
  case swept => exact hafter
  case read =>
    intro pid' t ht
    rw [hnow]
    rcases replied_cons ht with hold | hnew
    · exact h.read pid' t hold
    · dsimp only [recorded] at hnew
      cases op with
      | utcNow =>
          cases hnew
          exact le_refl _
      | _ => cases hnew
  case used =>
    intro t ht
    obtain ⟨e, he, ht⟩ := ht
    rw [hnow]
    rcases List.mem_cons.mp he with rfl | he
    · exact hused t ht
    · exact h.used t ⟨e, he, ht⟩
  case drifted =>
    refine ⟨rfl, rfl, rfl, ?_, fun key => ?_⟩
    · rw [hnow]
      exact h.drifted.now
    · rw [exec_drifted env hcalls, hnow]
      exact h.drifted.cache key
  case tokens =>
    intro pid' t ht
    rcases replied_cons ht with hold | hnew
    · exact (exec_gone env hcalls t).1 (h.tokens pid' t hold)
    · exact (hgone t).1 hnew.symm
  case checkpoints =>
    intro pid' t ht
    rcases replied_cons ht with hold | hnew
    · exact (exec_gone env hcalls t).2.1 (h.checkpoints pid' t hold)
    · exact (hgone t).2.1 hnew.symm
  case workflows =>
    intro pid' t ht
    rcases replied_cons ht with hold | hnew
    · exact (exec_gone env hcalls t).2.2 (h.workflows pid' t hold)
    · exact (hgone t).2.2 hnew.symm

end Sweeping

/-- No requests but cleanup arrive. -/
def OnlyCleanUp (_ : Handlers) : Pool.Label Request Env Drift → Prop
  | .arrive _ request => request = .cleanUp
  | .advance .. => True
  | .drift _ => True

/-- Cleanup runs under way from the world `w₀`. -/
def Handlers.CleaningUp (evictable : CachedLease → Int → Bool) (w₀ : World)
    (P : Handlers) : Prop :=
  Reachable (Pool.step (serverMachine evictable)) OnlyCleanUp (· = Pool.start w₀) P

instance (P : Handlers) (l : Pool.Label Request Env Drift) : Decidable (OnlyCleanUp P l) :=
  match l with
  | .arrive _ request => inferInstanceAs (Decidable (request = .cleanUp))
  | .advance .. => .isTrue trivial
  | .drift _ => .isTrue trivial

section CleaningUp

variable {w₀ : World} {P P' : Handlers}

theorem Handlers.CleaningUp.reached (hr : P.CleaningUp evictable w₀) : P.Reached evictable :=
  .trans (.start ⟨w₀, rfl⟩) (hr.mono fun _ _ _ => trivial)

/-- A cleanup run on its way keeps to its discipline. -/
theorem cleanUpCalls_of_rest (hr : P.Reached evictable)
    (hall : ∀ (pid : Nat) p, P.procs pid = some p → p.tag = .cleanUp) {pid : Nat}
    {p : Process StorageCall StorageCall.Reply String (Except HandlerError Response) Request}
    (hp : P.procs pid = some p) {op : StorageCall}
    {next : op.Reply → Program StorageCall StorageCall.Reply String
      (Except HandlerError Response)}
    (hrest : p.rest = .call op next) : CleanUpCalls (Pool.logOf pid P.trace) op := by
  have hobeys : Program.Obeys CleanUpCalls (fun _ _ => True) []
      ((serverMachine evictable).program p.tag) := by
    rw [hall pid p hp]
    exact obeys_cleanUpCalls
  have hnow := hr.sound.obeys hp hobeys
  rw [hrest] at hnow
  exact hnow.1

/-- **Every run of cleanups keeps it.** -/
theorem Handlers.CleaningUp.sweeping (hr : P.CleaningUp evictable w₀) :
    (∀ (pid : Nat) p, P.procs pid = some p → p.tag = .cleanUp) ∧
      Sweeping evictable w₀ P.trace P.shared := by
  refine hr.invariant_of_reachable (fun P => (∀ (pid : Nat) p, P.procs pid = some p →
    p.tag = .cleanUp) ∧ Sweeping evictable w₀ P.trace P.shared) ?_ ?_
  · intro P hi
    rw [hi]
    exact ⟨fun pid p hp => by simp [Pool.start] at hp, .start w₀⟩
  · intro P l P' hP h hok hs
    obtain ⟨hall, hsweeping⟩ := h
    have htags : ∀ pid request, l = .arrive pid request → request = .cleanUp := by
      intro pid request hl
      rw [hl] at hok
      exact hok
    refine ⟨tags_step (T := (· = .cleanUp)) hall htags hs, ?_⟩
    rcases Pool.step_cases hs with ⟨pid, tag, -, -, rfl⟩ |
      ⟨pid, choice, env, p, op, next, -, hp, hrest, rfl⟩ |
      ⟨pid, choice, env, p, rest, held, -, -, -, rfl⟩ | ⟨d, w, -, hd, rfl⟩
    · exact hsweeping
    · exact hsweeping.perform p.tag env
        (cleanUpCalls_of_rest (Handlers.CleaningUp.reached hP) hall hp hrest)
    · exact hsweeping
    · exact hsweeping.drift (.of_apply hd)

/-- The statements of a run at `t` have all succeeded. -/
def Handlers.CleanedUpAt (P : Handlers) (pid : Nat) (t : Int) : Prop :=
  Replied (Pool.logOf pid P.trace) (.deleteFencingTokens t completed) (Except.ok ()) ∧
    Replied (Pool.logOf pid P.trace) (.deleteCheckpoints t completed) (Except.ok ()) ∧
    Replied (Pool.logOf pid P.trace) (.deleteWorkflows t completed) (Except.ok ())

/-- A run of cleanups takes a workflow's row away last. -/
theorem Sweeping.row_removed_last {trace : List StorageEvent} {w : World}
    (h : Sweeping evictable w₀ trace w) {pid : Nat} (tag : Request)
    {op : StorageCall} (env : Env) (hcalls : CleanUpCalls (Pool.logOf pid trace) op)
    {id : String} {row : Workflow}
    (hrow : w.workflows id = some row) (hgone : (op.exec env w).2.workflows id = none) :
    w.fencingTokens id = none ∧ ∀ position, w.checkpoints id position = none := by
  have hchanged : (op.exec env w).2.workflows id ≠ w₀.workflows id := by
    rcases h.swept.workflows id with hsame | ⟨hnone, -⟩
    · rw [← hsame, hrow, hgone]
      simp
    · rw [hrow] at hnone
      contradiction
  have hchildren := (h.perform tag env hcalls).swept.children id hchanged
  -- Only the delete of the workflows takes the row, and it takes nothing else.
  cases op with
  | deleteWorkflows currentTimestamp status =>
      have htokens :
        (StorageCall.exec env (.deleteWorkflows currentTimestamp status) w).2.fencingTokens =
          w.fencingTokens := StorageCall.exec_preserves env _ w
            (fun w' => w'.fencingTokens = w.fencingTokens) rfl fun _ => rfl
      have hrows :
        (StorageCall.exec env (.deleteWorkflows currentTimestamp status) w).2.checkpoints =
          w.checkpoints := StorageCall.exec_preserves env _ w
            (fun w' => w'.checkpoints = w.checkpoints) rfl fun _ => rfl
      rw [htokens, hrows] at hchildren
      exact hchildren
  | deleteFencingTokens currentTimestamp status =>
      have hsame :
        (StorageCall.exec env (.deleteFencingTokens currentTimestamp status) w).2.workflows =
          w.workflows := StorageCall.exec_preserves env _ w
            (fun w' => w'.workflows = w.workflows) rfl fun _ => rfl
      rw [hsame, hrow] at hgone
      contradiction
  | deleteCheckpoints currentTimestamp status =>
      have hsame :
        (StorageCall.exec env (.deleteCheckpoints currentTimestamp status) w).2.workflows =
          w.workflows := StorageCall.exec_preserves env _ w
            (fun w' => w'.workflows = w.workflows) rfl fun _ => rfl
      rw [hsame, hrow] at hgone
      contradiction
  | isLeaderDb => exact absurd (hrow.symm.trans hgone) (by simp)
  | utcNow => exact absurd (hrow.symm.trans hgone) (by simp)
  | _ => exact hcalls.elim

/-- A run at the newest timestamp leaves what a single one would have left. -/
theorem Sweeping.drifts_collect {trace : List StorageEvent} {w : World}
    (h : Sweeping evictable w₀ trace w) {pid : Nat} {t : Int}
    (htokens : Replied (Pool.logOf pid trace) (.deleteFencingTokens t completed) (Except.ok ()))
    (hcheckpoints : Replied (Pool.logOf pid trace) (.deleteCheckpoints t completed)
      (Except.ok ()))
    (hworkflows : Replied (Pool.logOf pid trace) (.deleteWorkflows t completed) (Except.ok ()))
    (hnewest : ∀ t', Used trace t' → t' ≤ t) (ht : t ≤ w.now) :
    World.Drifts evictable (World.collect { w₀ with now := t } t) w := by
  have hexpired (id : String) :
      World.expired { w₀ with now := t } t completed id = w₀.expired t completed id := rfl
  constructor
  case now => exact ht
  case cache => exact h.drifted.cache
  case workflows =>
    funext id
    rw [World.collect]
    dsimp only
    rw [hexpired]
    split
    · next he => exact h.workflows pid t hworkflows id he
    · next he => exact (h.swept.untouched hnewest (Bool.not_eq_true _ ▸ he)).1
  case fencingTokens =>
    funext id
    rw [World.collect]
    dsimp only
    rw [hexpired]
    split
    · next he => exact h.tokens pid t htokens id he
    · next he => exact (h.swept.untouched hnewest (Bool.not_eq_true _ ▸ he)).2.1
  case checkpoints =>
    funext id position
    rw [World.collect]
    dsimp only
    rw [hexpired]
    split
    · next he => exact h.checkpoints pid t hcheckpoints id he position
    · next he =>
        exact congrFun (h.swept.untouched hnewest (Bool.not_eq_true _ ▸ he)).2.2 position

/-- **Cleanup is exact, and survives partial failure**: in every interleaving of
cleanup runs, with any of their statements failing, a workflow's row is removed
only when its token and checkpoints are gone; what had not expired at the newest
timestamp is untouched; and once a run at the newest timestamp has succeeded,
all is as one undisturbed run at that time would have left it. -/
theorem cleanup_exact (hr : P.CleaningUp evictable w₀) :
    (∀ l P', Pool.step (serverMachine evictable) P l = some P' → ∀ id row,
        P.shared.workflows id = some row → P'.shared.workflows id = none →
        P.shared.fencingTokens id = none ∧
          ∀ position, P.shared.checkpoints id position = none) ∧
      (∀ newest, (∀ t, Used P.trace t → t ≤ newest) →
        ∀ id, w₀.expired newest completed id = false →
          P.shared.workflows id = w₀.workflows id ∧
          P.shared.fencingTokens id = w₀.fencingTokens id ∧
          P.shared.checkpoints id = w₀.checkpoints id) ∧
      ∀ pid t, P.CleanedUpAt pid t → (∀ t', Used P.trace t' → t' ≤ t) →
        ∀ env : Env, env.fault = .none → env.leader = true →
          World.Drifts evictable
            (Request.cleanUp.handle env { w₀ with now := t }).2 P.shared := by
  obtain ⟨hall, hsweeping⟩ := hr.sweeping
  refine ⟨fun l P' hs id row hrow hgone => ?_, fun newest hnewest id hlive => ?_,
    fun pid t hclean hnewest env hf hleader => ?_⟩
  · have hsame : P'.shared.workflows ≠ P.shared.workflows := by
      intro heq
      rw [heq, hrow] at hgone
      contradiction
    rcases shared_step hs with hd | ⟨pid, choice, env, p, op, next, -, hp, hrest, hshared⟩
    · exact absurd hd.workflows hsame
    · rw [hshared] at hgone
      exact hsweeping.row_removed_last p.tag env
        (cleanUpCalls_of_rest hr.reached hall hp hrest) hrow hgone
  · exact hsweeping.swept.untouched hnewest hlive
  · obtain ⟨htokens, hcheckpoints, hworkflows⟩ := hclean
    obtain ⟨later, e, earlier, env', hsplit, -, hop, -⟩ :=
      hr.reached.sound.exists_of_mem_logOf (List.Subset.refl _) hworkflows
    have hused : Used P.trace t := by
      refine ⟨e, ?_, ?_⟩
      · rw [hsplit]
        simp
      · rw [hop]
        rfl
    rw [handle_cleanUp, run_handleWorkflowCleanup hf, hleader]
    exact hsweeping.drifts_collect htokens hcheckpoints hworkflows hnewest
      (hsweeping.used t hused)

end CleaningUp

/-! ## A run -/

/-- A completed workflow past its expiry. -/
def expiredPay : World :=
  (((World.empty 10).setWorkflow "pay"
    { id := "pay", status := completed, expireAt := some 0, completedAt := some 0, name := none,
      createdAt := 0 }).setFencingToken "pay" 1).setCheckpoint "pay" 0
    { idempotencyKey := "k", value := some [1], createdAt := 0 }

/-- A cleanup run fails to delete the checkpoints; time passes, and another
one succeeds. -/
def failedThenCleaned : List (Pool.Label Request Env Drift) :=
  arrives 0 .cleanUp 4 ++
    [.advance 0 true { fault := .refused, minted := "", leader := true }, .drift (.tick 5)] ++
    arrives 1 .cleanUp 6

theorem failed_then_cleaned :
    ∃ P : Handlers, execOk (Pool.step (serverMachine leaseExpired)) OnlyCleanUp
        (Pool.start expiredPay) failedThenCleaned = some P ∧ P.CleanedUpAt 1 15 ∧
      World.Drifts leaseExpired
        (Request.cleanUp.handle (.calm "" true) { expiredPay with now := 15 }).2 P.shared := by
  obtain ⟨P, hP⟩ : ∃ P : Handlers, execOk (Pool.step (serverMachine leaseExpired)) OnlyCleanUp
      (Pool.start expiredPay) failedThenCleaned = some P := Option.isSome_iff_exists.mp rfl
  have hlog := eq_of_outcome hP (fun P => Pool.logOf 1 P.trace)
    (a := [⟨.deleteWorkflows 15 1, Except.ok ()⟩, ⟨.deleteCheckpoints 15 1, Except.ok ()⟩,
      ⟨.deleteFencingTokens 15 1, Except.ok ()⟩, ⟨.utcNow, (15 : Int)⟩,
      ⟨.isLeaderDb, true⟩]) rfl
  have htimes := eq_of_outcome hP (fun P => P.trace.filterMap fun e => e.op.timestamp?)
    (a := [15, 15, 15, 10, 10]) rfl
  have hr : Handlers.CleaningUp leaseExpired expiredPay P := .of_execOk (.start rfl) hP
  have hclean : P.CleanedUpAt 1 15 := by
    rw [Handlers.CleanedUpAt, hlog]
    exact ⟨by simp [Replied, completed, WorkflowStatus.toInt],
      by simp [Replied, completed, WorkflowStatus.toInt],
      by simp [Replied, completed, WorkflowStatus.toInt]⟩
  have hnewest : ∀ t, Used P.trace t → t ≤ 15 := by
    intro t ht
    obtain ⟨e, he, ht⟩ := ht
    have hmem : t ∈ P.trace.filterMap fun e => e.op.timestamp? :=
      List.mem_filterMap.mpr ⟨e, he, ht⟩
    rw [htimes] at hmem
    simp at hmem
    omega
  exact ⟨P, hP, hclean, (cleanup_exact hr).2.2 1 15 hclean hnewest (.calm "" true) rfl rfl⟩

end IdempotentTransformer
