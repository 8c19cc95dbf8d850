import IdempotentTransformer.Library.Program

/-!
# IdempotentTransformer.Library.Pool

Any number of programs taking turns on one shared state, one atomic
operation (or one lock operation, or one scheduling choice) at a time,
while the shared state may drift by itself in between.

The pool records every operation with the state it found and the state it
left.  A run is argued about in that record:

* `Sound` collects what every run keeps — each operation is one its program
  could make next, did what it does, and found the shared state the
  operations before it left, up to drift (`sound_of_reachable`);
* `Span` is the shared state's way through a stretch of the record: what
  drift and every operation of the stretch preserve holds at its end
  (`Span.preserves`), and what holds at its end but not at its start was
  brought about by one of them (`Span.exists_change`).
-/

namespace Library

/-- A program on its way: what it was started for, what it has done so
far, and what is left of it. -/
structure Process (Op : Type) (Reply : Op → Type) (κ α ρ : Type) where
  tag : ρ
  log : Program.Log Op Reply
  rest : Program Op Reply κ α

/-- One operation of a run: who called it and what for, the reply, and the
shared state before and after. -/
structure Event (Op : Type) (Reply : Op → Type) (ρ σ : Type) where
  pid : Nat
  tag : ρ
  op : Op
  reply : Reply op
  before : σ
  after : σ

/-- Any number of programs over one shared state, with every operation
performed so far, latest first. -/
structure Pool (Op : Type) (Reply : Op → Type) (κ α ρ σ : Type) where
  shared : σ
  held : κ → Bool
  procs : Nat → Option (Process Op Reply κ α ρ)
  trace : List (Event Op Reply ρ σ)

/-- What a pool runs: the program of each tag, the effect of an operation
under a choice of the environment, and the drift of the shared state. -/
structure Machine (Op : Type) (Reply : Op → Type) (κ α ρ σ ε δ : Type) where
  program : ρ → Program Op Reply κ α
  exec : ε → (op : Op) → σ → Reply op × σ
  drift : δ → σ → Option σ

inductive Pool.Label (ρ ε δ : Type)
  /-- A new program arrives under an unused identifier. -/
  | arrive (pid : Nat) (tag : ρ)
  /-- A program makes a step.  `choice` is the scheduler's: which side of an
  `either` goes on, and whether taking a lock succeeds. -/
  | advance (pid : Nat) (choice : Bool) (env : ε)
  /-- The shared state drifts. -/
  | drift (d : δ)

namespace Pool

variable {Op : Type} {Reply : Op → Type} {κ α ρ σ ε δ : Type}

/-- Nothing has arrived yet. -/
def start (s : σ) : Pool Op Reply κ α ρ σ :=
  { shared := s, held := fun _ => false, procs := fun _ => none, trace := [] }

/-- Set what a process has done and what is left of it. -/
def setProcess (P : Pool Op Reply κ α ρ σ) (pid : Nat) (p : Process Op Reply κ α ρ) :
    Pool Op Reply κ α ρ σ :=
  { P with procs := Function.update P.procs pid (some p) }

/-- Record an operation: its effect on the shared state, the caller's log
and the trace. -/
def perform (P : Pool Op Reply κ α ρ σ) (pid : Nat) (p : Process Op Reply κ α ρ) (op : Op)
    (next : Reply op → Program Op Reply κ α) (result : Reply op × σ) : Pool Op Reply κ α ρ σ :=
  { P.setProcess pid { p with log := ⟨op, result.1⟩ :: p.log, rest := next result.1 } with
    shared := result.2
    trace := { pid := pid, tag := p.tag, op := op, reply := result.1, before := P.shared,
               after := result.2 } :: P.trace }

@[simp] theorem perform_trace (P : Pool Op Reply κ α ρ σ) (pid : Nat)
    (p : Process Op Reply κ α ρ) (op : Op) (next : Reply op → Program Op Reply κ α)
    (result : Reply op × σ) :
    (P.perform pid p op next result).trace =
      { pid := pid, tag := p.tag, op := op, reply := result.1, before := P.shared,
        after := result.2 } :: P.trace := rfl

@[simp] theorem setProcess_procs_self (P : Pool Op Reply κ α ρ σ) (pid : Nat)
    (p : Process Op Reply κ α ρ) : (P.setProcess pid p).procs pid = some p := by
  simp [setProcess]

@[simp] theorem perform_procs_self (P : Pool Op Reply κ α ρ σ) (pid : Nat)
    (p : Process Op Reply κ α ρ) (op : Op) (next : Reply op → Program Op Reply κ α)
    (result : Reply op × σ) : (P.perform pid p op next result).procs pid =
      some { p with log := ⟨op, result.1⟩ :: p.log, rest := next result.1 } := by
  simp [perform, setProcess]

section Step

variable [DecidableEq κ]

/-- One step of one program.  A lock somebody holds blocks, and a program
that is over has no step. -/
def advance (exec : (op : Op) → σ → Reply op × σ) (pid : Nat) (choice : Bool)
    (P : Pool Op Reply κ α ρ σ) : Option (Pool Op Reply κ α ρ σ) :=
  match P.procs pid with
  | none => none
  | some p =>
    match p.rest with
    | .ret _ => none
    | .call op next => some (P.perform pid p op next (exec op P.shared))
    | .acquire key next =>
        if choice then
          if P.held key then none
          else some { P.setProcess pid { p with rest := next true } with
            held := Function.update P.held key true }
        else some (P.setProcess pid { p with rest := next false })
    | .release key next =>
        some { P.setProcess pid { p with rest := next } with
          held := Function.update P.held key false }
    | .either l r => some (P.setProcess pid { p with rest := if choice then l else r })

/-- One step of a pool. -/
def step (M : Machine Op Reply κ α ρ σ ε δ) : Step (Pool Op Reply κ α ρ σ) (Label ρ ε δ)
  | P, .arrive pid tag =>
    match P.procs pid with
    | some _ => none
    | none => some (P.setProcess pid { tag := tag, log := [], rest := M.program tag })
  | P, .advance pid choice env => P.advance (M.exec env) pid choice
  | P, .drift d => (M.drift d P.shared).map fun s => { P with shared := s }

section Forward

variable {M : Machine Op Reply κ α ρ σ ε δ} {P : Pool Op Reply κ α ρ σ} {pid : Nat}
  {p : Process Op Reply κ α ρ}

/-- Under an unused identifier a program may arrive. -/
theorem step_arrive (h : P.procs pid = none) (tag : ρ) :
    step M P (.arrive pid tag) =
      some (P.setProcess pid { tag := tag, log := [], rest := M.program tag }) := by
  simp [step, h]

/-- A program may always make its next operation. -/
theorem step_call (hp : P.procs pid = some p) {op : Op} {next : Reply op → Program Op Reply κ α}
    (hr : p.rest = .call op next) (choice : Bool) (env : ε) :
    step M P (.advance pid choice env) =
      some (P.perform pid p op next (M.exec env op P.shared)) := by
  simp [step, advance, hp, hr]

/-- It may always go on with either side. -/
theorem step_either (hp : P.procs pid = some p) {l r : Program Op Reply κ α}
    (hr : p.rest = .either l r) (choice : Bool) (env : ε) :
    step M P (.advance pid choice env) =
      some (P.setProcess pid { p with rest := if choice then l else r }) := by
  simp [step, advance, hp, hr]

end Forward

/-- **What an advance does**: perform the operation at the head of a program,
or go on silently with nothing but the locks changed. -/
theorem advance_cases {exec : (op : Op) → σ → Reply op × σ} {pid : Nat} {choice : Bool}
    {P P' : Pool Op Reply κ α ρ σ} (h : P.advance exec pid choice = some P') :
    ∃ p, P.procs pid = some p ∧
      ((∃ op next, p.rest = .call op next ∧ P' = P.perform pid p op next (exec op P.shared)) ∨
        ∃ rest held, Program.Silent p.rest rest ∧
          P' = { P.setProcess pid { p with rest := rest } with held := held }) := by
  unfold advance at h
  cases hp : P.procs pid with
  | none => simp only [hp] at h; contradiction
  | some p =>
      refine ⟨p, rfl, ?_⟩
      simp only [hp] at h
      cases hr : p.rest with
      | ret a => simp only [hr] at h; contradiction
      | call op next =>
          simp only [hr, Option.some.injEq] at h
          exact .inl ⟨op, next, rfl, h.symm⟩
      | acquire key next =>
          simp only [hr] at h
          split at h
          · split at h
            · contradiction
            · exact .inr ⟨_, _, .acquire key next true, (Option.some.inj h).symm⟩
          · exact .inr ⟨_, P.held, .acquire key next false, (Option.some.inj h).symm⟩
      | release key next =>
          simp only [hr, Option.some.injEq] at h
          exact .inr ⟨_, _, .release key next, h.symm⟩
      | either l r =>
          simp only [hr, Option.some.injEq] at h
          cases choice with
          | true => exact .inr ⟨_, P.held, .left l r, h.symm⟩
          | false => exact .inr ⟨_, P.held, .right l r, h.symm⟩

/-- **What a step does**: a program arrives, or one performs its next
operation, or one goes on silently, or the shared state drifts. -/
theorem step_cases {M : Machine Op Reply κ α ρ σ ε δ} {P P' : Pool Op Reply κ α ρ σ}
    {l : Label ρ ε δ} (h : step M P l = some P') :
    (∃ pid tag, l = .arrive pid tag ∧ P.procs pid = none ∧
        P' = P.setProcess pid { tag := tag, log := [], rest := M.program tag }) ∨
      (∃ pid choice env p op next, l = .advance pid choice env ∧ P.procs pid = some p ∧
        p.rest = .call op next ∧ P' = P.perform pid p op next (M.exec env op P.shared)) ∨
      (∃ pid choice env p rest held, l = .advance pid choice env ∧ P.procs pid = some p ∧
        Program.Silent p.rest rest ∧
        P' = { P.setProcess pid { p with rest := rest } with held := held }) ∨
      ∃ d s, l = .drift d ∧ M.drift d P.shared = some s ∧ P' = { P with shared := s } := by
  cases l with
  | arrive pid tag =>
      simp only [step] at h
      cases hp : P.procs pid with
      | some p => simp only [hp] at h; contradiction
      | none =>
          simp only [hp, Option.some.injEq] at h
          exact .inl ⟨pid, tag, rfl, hp, h.symm⟩
  | advance pid choice env =>
      obtain ⟨p, hp, ⟨op, next, hr, rfl⟩ | ⟨rest, held, hs, rfl⟩⟩ := advance_cases h
      · exact .inr (.inl ⟨pid, choice, env, p, op, next, rfl, hp, hr, rfl⟩)
      · exact .inr (.inr (.inl ⟨pid, choice, env, p, rest, held, rfl, hp, hs, rfl⟩))
  | drift d =>
      simp only [step, Option.map_eq_some_iff] at h
      obtain ⟨s, hs, rfl⟩ := h
      exact .inr (.inr (.inr ⟨d, s, rfl, hs, rfl⟩))

end Step

/-! ## Stretches of a record -/

/-- The shared state goes from `a` to `b` by the operations of a stretch,
latest first, drifting by `R` between them. -/
def Span (R : σ → σ → Prop) (a : σ) : List (Event Op Reply ρ σ) → σ → Prop
  | [], b => R a b
  | e :: es, b => R e.after b ∧ Span R a es e.before

namespace Span

variable {R : σ → σ → Prop} {a b : σ} {es : List (Event Op Reply ρ σ)}

/-- A stretch is cut at any of its operations. -/
theorem append_cons {later earlier : List (Event Op Reply ρ σ)} {e : Event Op Reply ρ σ} :
    Span R a (later ++ e :: earlier) b ↔ Span R e.after later b ∧
      Span R a earlier e.before := by
  induction later generalizing b with
  | nil => rfl
  | cons g later ih => simp only [List.cons_append, Span, ih, and_assoc]

/-- What relates the two ends of every drift and of every operation, and
is transitive, relates the two ends of the stretch. -/
theorem related {T : σ → σ → Prop} (htrans : ∀ a b c, T a b → T b c → T a c)
    (hR : ∀ a b, R a b → T a b) (he : ∀ e ∈ es, T e.before e.after) (h : Span R a es b) :
    T a b := by
  induction es generalizing b with
  | nil => exact hR a b h
  | cons e es ih =>
      have hprefix : T a e.before := ih (fun g hg => he g (List.mem_cons_of_mem _ hg)) h.2
      exact htrans _ _ _ (htrans _ _ _ hprefix (he e List.mem_cons_self)) (hR _ _ h.1)

/-- What every drift and every operation of the stretch preserves, the
stretch preserves. -/
theorem preserves {I : σ → Prop} (hR : ∀ a b, R a b → I a → I b)
    (he : ∀ e ∈ es, I e.before → I e.after) (h : Span R a es b) : I a → I b :=
  related (T := fun a b => I a → I b) (fun _ _ _ hab hbc ha => hbc (hab ha)) hR he h

/-- What drift preserves and the stretch does not, one of its operations
has ended. -/
theorem exists_change {I : σ → Prop} (hR : ∀ a b, R a b → I a → I b) (h : Span R a es b)
    (ha : I a) (hb : ¬ I b) : ∃ e ∈ es, I e.before ∧ ¬ I e.after := by
  refine Classical.byContradiction fun hno => hb (h.preserves hR (fun e he hi => ?_) ha)
  exact Classical.byContradiction fun hn => hno ⟨e, he, hi, hn⟩

end Span

/-! ## Sound records -/

/-- The calls of one program and their replies, latest first. -/
def logOf (pid : Nat) (trace : List (Event Op Reply ρ σ)) : Program.Log Op Reply :=
  (trace.filter (·.pid == pid)).map fun e => ⟨e.op, e.reply⟩

theorem logOf_cons_self {pid : Nat} {e : Event Op Reply ρ σ} {trace : List (Event Op Reply ρ σ)}
    (h : e.pid = pid) : logOf pid (e :: trace) = ⟨e.op, e.reply⟩ :: logOf pid trace := by
  simp [logOf, h]

theorem logOf_cons_ne {pid : Nat} {e : Event Op Reply ρ σ} {trace : List (Event Op Reply ρ σ)}
    (h : e.pid ≠ pid) : logOf pid (e :: trace) = logOf pid trace := by
  simp [logOf, h]

theorem logOf_append_cons (later : List (Event Op Reply ρ σ)) (e : Event Op Reply ρ σ)
    (earlier : List (Event Op Reply ρ σ)) :
    logOf e.pid (later ++ e :: earlier) =
      logOf e.pid later ++ ⟨e.op, e.reply⟩ :: logOf e.pid earlier := by
  simp [logOf]

/-- What every run keeps about its record. -/
structure Sound (M : Machine Op Reply κ α ρ σ ε δ) (R : σ → σ → Prop)
    (P : Pool Op Reply κ α ρ σ) : Prop where
  /-- The log of a process is its part of the record. -/
  logged : ∀ pid p, P.procs pid = some p → p.log = logOf pid P.trace
  /-- Every operation was called by a process under its tag. -/
  tagged : ∀ e ∈ P.trace, ∃ p, P.procs e.pid = some p ∧ p.tag = e.tag
  /-- A process is somewhere on its program. -/
  trail : ∀ pid p, P.procs pid = some p → Program.Trail (M.program p.tag) p.log p.rest
  /-- Every operation is one the program could call next. -/
  called : ∀ later e earlier, P.trace = later ++ e :: earlier →
    ∃ next, Program.Trail (M.program e.tag) (logOf e.pid earlier) (.call e.op next)
  /-- Every operation did what it does. -/
  executed : ∀ e ∈ P.trace, ∃ env, M.exec env e.op e.before = (e.reply, e.after)
  /-- The shared state came about by the operations of the record. -/
  linked : ∃ s, Span R s P.trace P.shared

namespace Sound

variable {M : Machine Op Reply κ α ρ σ ε δ} {R : σ → σ → Prop} {P P' : Pool Op Reply κ α ρ σ}

/-- A record is sound at the start. -/
theorem start (hrefl : ∀ s, R s s) (s : σ) : Sound M R (Pool.start s) where
  logged := fun _ _ h => by simp [Pool.start] at h
  tagged := fun _ h => by simp [Pool.start] at h
  trail := fun _ _ h => by simp [Pool.start] at h
  called := fun _ _ _ h => by simp [Pool.start] at h
  executed := fun _ h => by simp [Pool.start] at h
  linked := ⟨s, hrefl s⟩

/-- No operation stands under an unused identifier. -/
theorem logOf_eq_nil (h : Sound M R P) {pid : Nat} (hp : P.procs pid = none) :
    logOf pid P.trace = [] := by
  rw [logOf, List.map_eq_nil_iff, List.filter_eq_nil_iff]
  intro e he
  obtain ⟨p, hep, -⟩ := h.tagged e he
  simp only [beq_iff_eq]
  rintro rfl
  rw [hp] at hep
  contradiction

/-- A step that records nothing and takes a process along its program. -/
private theorem setProcess (h : Sound M R P) {pid : Nat} {p : Process Op Reply κ α ρ}
    (hlog : p.log = logOf pid P.trace) (htag : ∀ p', P.procs pid = some p' → p'.tag = p.tag)
    (htrail : Program.Trail (M.program p.tag) p.log p.rest) :
      Sound M R (P.setProcess pid p) where
  logged := by
    intro pid' p' hp'
    simp only [Pool.setProcess, Function.update_apply] at hp'
    split at hp'
    · next heq => cases hp'; rw [heq]; exact hlog
    · exact h.logged pid' p' hp'
  tagged := by
    intro e he
    obtain ⟨p', hp', ht⟩ := h.tagged e he
    simp only [Pool.setProcess, Function.update_apply]
    split
    · next heq => exact ⟨p, rfl, (htag p' (heq ▸ hp')).symm.trans ht⟩
    · exact ⟨p', hp', ht⟩
  trail := by
    intro pid' p' hp'
    simp only [Pool.setProcess, Function.update_apply] at hp'
    split at hp'
    · cases hp'; exact htrail
    · exact h.trail pid' p' hp'
  called := h.called
  executed := h.executed
  linked := h.linked

private theorem perform (h : Sound M R P) (hrefl : ∀ s, R s s) {pid : Nat}
    {p : Process Op Reply κ α ρ} (hp : P.procs pid = some p) {op : Op}
    {next : Reply op → Program Op Reply κ α} (hr : p.rest = .call op next) (env : ε) :
    Sound M R (P.perform pid p op next (M.exec env op P.shared)) where
  logged := by
    intro pid' p' hp'
    simp only [Pool.perform, Pool.setProcess, Function.update_apply] at hp'
    split at hp'
    · next heq =>
        cases hp'
        rw [perform_trace, logOf_cons_self heq.symm, heq, ← h.logged pid p hp]
    · next hne =>
        rw [perform_trace, logOf_cons_ne (Ne.symm hne)]
        exact h.logged pid' p' hp'
  tagged := by
    intro e he
    simp only [Pool.perform, Pool.setProcess, Function.update_apply]
    have hold : ∃ p', P.procs e.pid = some p' ∧ p'.tag = e.tag := by
      rcases List.mem_cons.mp he with rfl | he
      · exact ⟨p, hp, rfl⟩
      · exact h.tagged e he
    obtain ⟨p', hp', ht⟩ := hold
    split
    · next heq =>
        rw [heq, hp, Option.some.injEq] at hp'
        exact ⟨_, rfl, hp' ▸ ht⟩
    · exact ⟨p', hp', ht⟩
  trail := by
    intro pid' p' hp'
    simp only [Pool.perform, Pool.setProcess, Function.update_apply] at hp'
    split at hp'
    · cases hp'
      exact .call (hr ▸ h.trail pid p hp) _
    · exact h.trail pid' p' hp'
  called := by
    intro later e earlier he
    cases later with
    | nil =>
        simp only [Pool.perform, List.nil_append, List.cons.injEq] at he
        obtain ⟨rfl, rfl⟩ := he
        exact ⟨next, h.logged pid p hp ▸ hr ▸ h.trail pid p hp⟩
    | cons g later =>
        simp only [Pool.perform, List.cons_append, List.cons.injEq] at he
        exact h.called later e earlier he.2
  executed := by
    intro e he
    rcases List.mem_cons.mp he with rfl | he
    · exact ⟨env, rfl⟩
    · exact h.executed e he
  linked := by
    obtain ⟨s, hs⟩ := h.linked
    exact ⟨s, hrefl _, hs⟩

/-- **Every run keeps its record sound.** -/
theorem of_reachable [DecidableEq κ] (hrefl : ∀ s, R s s)
    (htrans : ∀ a b c, R a b → R b c → R a c)
    (hdrift : ∀ d s s', M.drift d s = some s' → R s s')
    {ok : Pool Op Reply κ α ρ σ → Label ρ ε δ → Prop}
    (hr : Reachable (step M) ok (fun P => ∃ s, P = Pool.start s) P) : Sound M R P := by
  refine hr.invariant (Sound M R) ?_ ?_
  · rintro _ ⟨s, rfl⟩
    exact .start hrefl s
  · intro P l P' h _ hs
    rcases step_cases hs with
      ⟨pid, tag, -, hp, rfl⟩ | ⟨pid, choice, env, p, op, next, -, hp, hn, rfl⟩ |
      ⟨pid, choice, env, p, rest, held, -, hp, hsil, rfl⟩ | ⟨d, s, -, hd, rfl⟩
    · refine h.setProcess (h.logOf_eq_nil hp).symm (fun p' hp' => ?_) .start
      rw [hp] at hp'
      contradiction
    · exact h.perform hrefl hp hn env
    · have hset : Sound M R (P.setProcess pid { p with rest := rest }) := by
        refine h.setProcess (h.logged pid p hp) (fun p' hp' => ?_)
          (.silent (h.trail pid p hp) hsil)
        rw [hp, Option.some.injEq] at hp'
        rw [hp']
      exact { logged := hset.logged, tagged := hset.tagged, trail := hset.trail,
              called := hset.called, executed := hset.executed, linked := hset.linked }
    · obtain ⟨s₀, hs₀⟩ := h.linked
      refine { logged := h.logged, tagged := h.tagged, trail := h.trail, called := h.called,
               executed := h.executed, linked := ⟨s₀, ?_⟩ }
      cases ht : P.trace with
      | nil =>
          rw [ht] at hs₀
          exact htrans _ _ _ hs₀ (hdrift d _ _ hd)
      | cons e es =>
          rw [ht] at hs₀
          exact ⟨htrans _ _ _ hs₀.1 (hdrift d _ _ hd), hs₀.2⟩

/-- A process keeps the discipline of its tag. -/
theorem obeys (h : Sound M R P) {C : Program.Log Op Reply → Op → Prop}
    {Q : Program.Log Op Reply → α → Prop} {pid : Nat} {p : Process Op Reply κ α ρ}
    (hp : P.procs pid = some p) (ho : Program.Obeys C Q [] (M.program p.tag)) :
    Program.Obeys C Q (logOf pid P.trace) p.rest :=
  h.logged pid p hp ▸ (h.trail pid p hp).obeys ho

/-- Every operation of the record kept the discipline of its tag. -/
theorem obeyed (h : Sound M R P) {C : Program.Log Op Reply → Op → Prop}
    {Q : Program.Log Op Reply → α → Prop} {later earlier : List (Event Op Reply ρ σ)}
    {e : Event Op Reply ρ σ} (he : P.trace = later ++ e :: earlier)
    (ho : Program.Obeys C Q [] (M.program e.tag)) : C (logOf e.pid earlier) e.op := by
  obtain ⟨next, ht⟩ := h.called later e earlier he
  exact (ht.obeys ho).1

/-- Each entry of a log is an operation of the record. -/
theorem exists_of_mem_logOf (h : Sound M R P) {es : List (Event Op Reply ρ σ)}
    (hes : es ⊆ P.trace) {pid : Nat} {op : Op} {reply : Reply op}
    (hm : (⟨op, reply⟩ : (op : Op) × Reply op) ∈ logOf pid es) :
    ∃ later e earlier env, es = later ++ e :: earlier ∧ e.pid = pid ∧ e.op = op ∧
      M.exec env op e.before = (reply, e.after) := by
  simp only [logOf, List.mem_map, List.mem_filter, beq_iff_eq] at hm
  obtain ⟨⟨pid', tag, op', reply', before, after⟩, ⟨he, hp⟩, heq⟩ := hm
  cases heq
  obtain ⟨later, earlier, hsplit⟩ := List.append_of_mem he
  obtain ⟨env, henv⟩ := h.executed _ (hes he)
  exact ⟨later, _, earlier, env, hsplit, hp, rfl, henv⟩

/-- The shared state went from what an operation left to what is there now
by the operations since. -/
theorem span_after (h : Sound M R P) {later earlier : List (Event Op Reply ρ σ)}
    {e : Event Op Reply ρ σ} (he : P.trace = later ++ e :: earlier) :
    Span R e.after later P.shared := by
  obtain ⟨s, hs⟩ := h.linked
  rw [he, Span.append_cons] at hs
  exact hs.1

/-- The shared state went from what one operation left to what a later one
found by the operations between them. -/
theorem span_between (h : Sound M R P) {later between earlier : List (Event Op Reply ρ σ)}
    {e₁ e₂ : Event Op Reply ρ σ} (he : P.trace = later ++ e₂ :: (between ++ e₁ :: earlier)) :
    Span R e₁.after between e₂.before := by
  obtain ⟨s, hs⟩ := h.linked
  rw [he, Span.append_cons, Span.append_cons] at hs
  exact hs.2.1

end Sound

end Pool

end Library
