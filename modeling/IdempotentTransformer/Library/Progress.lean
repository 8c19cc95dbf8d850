import Mathlib.Algebra.BigOperators.Group.Finset.Basic
import Mathlib.Algebra.Order.BigOperators.Group.Finset
import IdempotentTransformer.Library.Confinement

/-!
# IdempotentTransformer.Library.Progress

Programs that take one lock at a time and are over after boundedly many
steps, so that none of them waits for ever.

* `Program.Within` bounds the steps of a program, `Program.Locks` is its
  lock discipline;
* `Pool.Holding` says who holds what, and is kept by every step;
* `Pool.advances_le` — no process makes more steps than its bound, whatever
  the others do;
* `Pool.exists_advance` — while somebody is under way, somebody can move.
-/

namespace Library

namespace Program

variable {Op : Type} {Reply : Op → Type} {κ α β γ : Type}

/-! ## Bounded programs -/

/-- Over after at most `n` steps, whatever the replies and the scheduler's
choices. -/
def Within : Nat → Program Op Reply κ α → Prop
  | _, .ret _ => True
  | n + 1, .call _ next => ∀ r, Within n (next r)
  | n + 1, .acquire _ next => ∀ b, Within n (next b)
  | n + 1, .release _ next => Within n next
  | n + 1, .either l r => Within n l ∧ Within n r
  | 0, _ => False

/-- A program that is over takes no more steps. -/
@[simp] theorem within_ret (n : Nat) (a : α) : Within n (.ret a : Program Op Reply κ α) := by
  cases n <;> trivial

/-- A program that may take no step is over. -/
theorem Within.over {p : Program Op Reply κ α} (h : Within 0 p) : ∃ a, p = .ret a := by
  cases p with
  | ret a => exact ⟨a, rfl⟩
  | _ => exact h.elim

/-- A larger bound is one too. -/
theorem Within.mono {p : Program Op Reply κ α} {m n : Nat} (h : Within m p) (hle : m ≤ n) :
    Within n p := by
  induction p generalizing m n with
  | ret a => exact within_ret n a
  | call op next ih =>
      match m, n, h with
      | m + 1, n + 1, h => exact fun r => ih r (h r) (by omega)
  | acquire key next ih =>
      match m, n, h with
      | m + 1, n + 1, h => exact fun b => ih b (h b) (by omega)
  | release key next ih =>
      match m, n, h with
      | m + 1, n + 1, h => exact ih (m := m) (n := n) h (by omega)
  | either l r ihl ihr =>
      match m, n, h with
      | m + 1, n + 1, h => exact ⟨ihl h.1 (by omega), ihr h.2 (by omega)⟩

section Shapes

variable {m n : Nat} {op : Op} {key : κ} {l r : Program Op Reply κ α}

theorem within_call {next : Reply op → Program Op Reply κ α} :
    Within n (.call op next) ↔ ∃ m, m < n ∧ ∀ r, Within m (next r) := by
  cases n with
  | zero => exact ⟨False.elim, fun ⟨m, hlt, _⟩ => absurd hlt m.not_lt_zero⟩
  | succ n =>
      exact ⟨fun h => ⟨n, by omega, h⟩, fun ⟨m, hlt, h⟩ r => (h r).mono (by omega)⟩

theorem within_acquire {next : Bool → Program Op Reply κ α} :
    Within n (.acquire key next) ↔ ∃ m, m < n ∧ ∀ b, Within m (next b) := by
  cases n with
  | zero => exact ⟨False.elim, fun ⟨m, hlt, _⟩ => absurd hlt m.not_lt_zero⟩
  | succ n =>
      exact ⟨fun h => ⟨n, by omega, h⟩, fun ⟨m, hlt, h⟩ b => (h b).mono (by omega)⟩

theorem within_release {next : Program Op Reply κ α} :
    Within n (.release key next) ↔ ∃ m, m < n ∧ Within m next := by
  cases n with
  | zero => exact ⟨False.elim, fun ⟨m, hlt, _⟩ => absurd hlt m.not_lt_zero⟩
  | succ n => exact ⟨fun h => ⟨n, by omega, h⟩, fun ⟨m, hlt, h⟩ => h.mono (by omega)⟩

theorem within_either :
    Within n (.either l r) ↔ ∃ m, m < n ∧ Within m l ∧ Within m r := by
  cases n with
  | zero => exact ⟨False.elim, fun ⟨m, hlt, _⟩ => absurd hlt m.not_lt_zero⟩
  | succ n =>
      exact ⟨fun h => ⟨n, by omega, h⟩, fun ⟨m, hlt, hl, hr⟩ =>
        ⟨hl.mono (by omega), hr.mono (by omega)⟩⟩

end Shapes

/-- The rule for sequential composition. -/
theorem within_bind {p : Program Op Reply κ α} {f : α → Program Op Reply κ β} {m n : Nat}
    (hp : Within m p) (hf : ∀ a, Within n (f a)) : Within (m + n) (p.bind f) := by
  induction p generalizing m with
  | ret a => exact (hf a).mono (by omega)
  | call op next ih =>
      obtain ⟨k, hlt, hp⟩ := within_call.mp hp
      exact within_call.mpr ⟨k + n, by omega, fun r => ih r (hp r)⟩
  | acquire key next ih =>
      obtain ⟨k, hlt, hp⟩ := within_acquire.mp hp
      exact within_acquire.mpr ⟨k + n, by omega, fun b => ih b (hp b)⟩
  | release key next ih =>
      obtain ⟨k, hlt, hp⟩ := within_release.mp hp
      exact within_release.mpr ⟨k + n, by omega, ih hp⟩
  | either l r ihl ihr =>
      obtain ⟨k, hlt, hl, hr⟩ := within_either.mp hp
      exact within_either.mpr ⟨k + n, by omega, ihl hl, ihr hr⟩

/-- Every step of the program may be preceded by a choice. -/
theorem within_interleave {partner : Program Op Reply κ β → Program Op Reply κ γ} {c n : Nat}
    (hpartner : ∀ k q, Within k q → Within (c + 2 * k) (partner q))
    {q : Program Op Reply κ β}
    (hq : Within n q) : Within (c + 1 + 2 * n) (interleave partner q) := by
  induction q generalizing n with
  | ret b => exact (hpartner n _ hq).mono (by omega)
  | call op next ih =>
      obtain ⟨k, hlt, hnext⟩ := within_call.mp hq
      refine within_either.mpr ⟨c + 2 * n, by omega, hpartner n _ hq, ?_⟩
      exact within_call.mpr ⟨c + 1 + 2 * k, by omega, fun r => ih r (hnext r)⟩
  | acquire key next ih =>
      obtain ⟨k, hlt, hnext⟩ := within_acquire.mp hq
      refine within_either.mpr ⟨c + 2 * n, by omega, hpartner n _ hq, ?_⟩
      exact within_acquire.mpr ⟨c + 1 + 2 * k, by omega, fun b => ih b (hnext b)⟩
  | release key next ih =>
      obtain ⟨k, hlt, hnext⟩ := within_release.mp hq
      refine within_either.mpr ⟨c + 2 * n, by omega, hpartner n _ hq, ?_⟩
      exact within_release.mpr ⟨c + 1 + 2 * k, by omega, ih hnext⟩
  | either l r ihl ihr =>
      obtain ⟨k, hlt, hl, hr⟩ := within_either.mp hq
      exact within_either.mpr ⟨c + 1 + 2 * k, by omega, ihl hl, ihr hr⟩

/-- The rule for concurrent composition: each step of either side may be
preceded by a choice. -/
theorem within_join {p : Program Op Reply κ α} {q : Program Op Reply κ β} {m n : Nat}
    (hp : Within m p) (hq : Within n q) : Within (2 * m + 2 * n) (join p q) := by
  induction p generalizing q m n with
  | ret a => exact (within_bind hq fun b => within_ret 0 (a, b)).mono (by omega)
  | call op next ih =>
      obtain ⟨k, hlt, hnext⟩ := within_call.mp hp
      rw [join]
      refine (within_interleave (c := 2 * k + 1) (fun n q hq => ?_) hq).mono (by omega)
      exact within_call.mpr ⟨2 * k + 2 * n, by omega, fun r => ih r (hnext r) hq⟩
  | acquire key next ih =>
      obtain ⟨k, hlt, hnext⟩ := within_acquire.mp hp
      rw [join]
      refine (within_interleave (c := 2 * k + 1) (fun n q hq => ?_) hq).mono (by omega)
      exact within_acquire.mpr ⟨2 * k + 2 * n, by omega, fun b => ih b (hnext b) hq⟩
  | release key next ih =>
      obtain ⟨k, hlt, hnext⟩ := within_release.mp hp
      rw [join]
      refine (within_interleave (c := 2 * k + 1) (fun n q hq => ?_) hq).mono (by omega)
      exact within_release.mpr ⟨2 * k + 2 * n, by omega, ih hnext hq⟩
  | either l r ihl ihr =>
      obtain ⟨k, hlt, hl, hr⟩ := within_either.mp hp
      exact within_either.mpr ⟨2 * k + 2 * n, by omega, ihl hl hq, ihr hr hq⟩

/-- What is left of a bounded program is bounded. -/
theorem Trail.within {p q : Program Op Reply κ α} {log : Log Op Reply} {n : Nat}
    (h : Trail p log q) (hp : Within n p) : Within n q := by
  induction h with
  | start => exact hp
  | call _ r ih =>
      obtain ⟨m, hlt, hnext⟩ := within_call.mp ih
      exact (hnext r).mono (by omega)
  | silent _ hs ih =>
      cases hs with
      | acquire key next taken =>
          obtain ⟨m, hlt, hnext⟩ := within_acquire.mp ih
          exact (hnext taken).mono (by omega)
      | release key next =>
          obtain ⟨m, hlt, hnext⟩ := within_release.mp ih
          exact hnext.mono (by omega)
      | left l r =>
          obtain ⟨m, hlt, hl, -⟩ := within_either.mp ih
          exact hl.mono (by omega)
      | right l r =>
          obtain ⟨m, hlt, -, hright⟩ := within_either.mp ih
          exact hright.mono (by omega)

/-! ## Lock discipline -/

/-- The program has at most one lock at a time, and none at its end; `held` is
the one it has now. -/
def Locks : Option κ → Program Op Reply κ α → Prop
  | held, .ret _ => held = none
  | held, .call _ next => ∀ r, Locks held (next r)
  | held, .acquire key next => held = none ∧ Locks (some key) (next true) ∧
      Locks none (next false)
  | held, .release key next => held = some key ∧ Locks none next
  | held, .either l r => Locks held l ∧ Locks held r

/-- The rule for sequential composition. -/
theorem locks_bind {p : Program Op Reply κ α} {f : α → Program Op Reply κ β} {held : Option κ}
    (hp : Locks held p) (hf : ∀ a, Locks none (f a)) : Locks held (p.bind f) := by
  induction p generalizing held with
  | ret a =>
      have hnone : held = none := hp
      rw [hnone]
      exact hf a
  | call op next ih => exact fun r => ih r (hp r)
  | acquire key next ih => exact ⟨hp.1, ih true hp.2.1, ih false hp.2.2⟩
  | release key next ih => exact ⟨hp.1, ih hp.2⟩
  | either l r ihl ihr => exact ⟨ihl hp.1, ihr hp.2⟩

/-- A program without locks keeps the discipline. -/
theorem Confined.locks {C : Op → Prop} {p : Program Op Reply κ α}
    (h : Confined C (fun _ => False) p) : Locks none p := by
  induction p with
  | ret a => rfl
  | call op next ih => exact fun r => ih r (h.2 r)
  | acquire key next ih => exact h.1.elim
  | release key next ih => exact h.1.elim
  | either l r ihl ihr => exact ⟨ihl h.1, ihr h.2⟩

/-- So does a program of nothing but calls. -/
theorem Direct.locks {p : Program Op Reply κ α} (h : p.Direct) : Locks none p := by
  induction p with
  | ret a => rfl
  | call op next ih => exact fun r => ih r (h r)
  | _ => exact h.elim

end Program

/-! ## Who holds what -/

namespace Pool

variable {Op : Type} {Reply : Op → Type} {κ α ρ σ ε δ : Type}

/-- `holding` is the lock each process has. -/
structure Holding (P : Pool Op Reply κ α ρ σ) (holding : Nat → Option κ) : Prop where
  locks : ∀ pid p, P.procs pid = some p → p.rest.Locks (holding pid)
  absent : ∀ pid, P.procs pid = none → holding pid = none
  held : ∀ key, P.held key = true ↔ ∃ pid, holding pid = some key
  unique : ∀ pid pid' key, holding pid = some key → holding pid' = some key → pid = pid'

namespace Holding

variable {P : Pool Op Reply κ α ρ σ} {holding : Nat → Option κ}

theorem start (s : σ) : Holding (Pool.start s : Pool Op Reply κ α ρ σ) (fun _ => none) where
  locks := fun _ _ h => by simp [Pool.start] at h
  absent := fun _ _ => rfl
  held := fun key => by simp [Pool.start]
  unique := fun _ _ _ h => by simp at h

/-- A process that has just arrived, or goes on with the lock it has. -/
theorem setProcess (h : Holding P holding) {pid : Nat} {p : Process Op Reply κ α ρ}
    (hp : p.rest.Locks (holding pid)) : Holding (P.setProcess pid p) holding where
  locks := by
    intro pid' p' hp'
    simp only [Pool.setProcess, Function.update_apply] at hp'
    split at hp'
    · next heq =>
        cases hp'
        rw [heq]
        exact hp
    · exact h.locks pid' p' hp'
  absent := by
    intro pid' hnone
    simp only [Pool.setProcess, Function.update_apply] at hnone
    split at hnone
    · contradiction
    · exact h.absent pid' hnone
  held := h.held
  unique := h.unique

/-- A process takes a lock nobody has. -/
theorem take [DecidableEq κ] (h : Holding P holding) {pid : Nat} {p' : Process Op Reply κ α ρ}
    {key : κ} (hfree : P.held key = false) (hnone : holding pid = none)
    (hp' : p'.rest.Locks (some key)) :
    Holding { P.setProcess pid p' with held := Function.update P.held key true }
      (Function.update holding pid (some key)) where
  locks := by
    intro pid' q hq
    simp only [Pool.setProcess, Function.update_apply] at hq ⊢
    split at hq
    · next heq =>
        cases hq
        rw [if_pos heq]
        exact hp'
    · next hne =>
        rw [if_neg hne]
        exact h.locks pid' q hq
  absent := by
    intro pid' hq
    simp only [Pool.setProcess, Function.update_apply] at hq ⊢
    split at hq
    · contradiction
    · next hne =>
        rw [if_neg hne]
        exact h.absent pid' hq
  held := by
    intro key'
    simp only [Function.update_apply]
    split
    · next heq => exact ⟨fun _ => ⟨pid, by simp [heq]⟩, fun _ => rfl⟩
    · next hne =>
        rw [h.held key']
        constructor
        · rintro ⟨pid', hpid'⟩
          have hother : pid' ≠ pid := fun heq => by rw [heq, hnone] at hpid'; contradiction
          exact ⟨pid', by rw [if_neg hother, hpid']⟩
        · rintro ⟨pid', hpid'⟩
          split at hpid'
          · cases hpid'
            contradiction
          · exact ⟨pid', hpid'⟩
  unique := by
    intro pid₁ pid₂ key' h₁ h₂
    have hnobody : ∀ pid', holding pid' ≠ some key := by
      intro pid' hpid'
      rw [(h.held key).mpr ⟨pid', hpid'⟩] at hfree
      contradiction
    simp only [Function.update_apply] at h₁ h₂
    split at h₁ <;> split at h₂
    · next h₁' h₂' => rw [h₁', h₂']
    · cases h₁
      exact absurd h₂ (hnobody pid₂)
    · cases h₂
      exact absurd h₁ (hnobody pid₁)
    · exact h.unique pid₁ pid₂ key' h₁ h₂

/-- A process gives its lock back. -/
theorem giveBack [DecidableEq κ] (h : Holding P holding) {pid : Nat}
    {p' : Process Op Reply κ α ρ} {key : κ} (hkey : holding pid = some key)
    (hp' : p'.rest.Locks none) :
    Holding { P.setProcess pid p' with held := Function.update P.held key false }
      (Function.update holding pid none) where
  locks := by
    intro pid' q hq
    simp only [Pool.setProcess, Function.update_apply] at hq ⊢
    split at hq
    · next heq =>
        cases hq
        rw [if_pos heq]
        exact hp'
    · next hne =>
        rw [if_neg hne]
        exact h.locks pid' q hq
  absent := by
    intro pid' hq
    simp only [Pool.setProcess, Function.update_apply] at hq ⊢
    split at hq
    · contradiction
    · next hne =>
        rw [if_neg hne]
        exact h.absent pid' hq
  held := by
    intro key'
    simp only [Function.update_apply]
    split
    · next heq =>
        rw [heq]
        constructor
        · intro hfalse
          contradiction
        · rintro ⟨pid', hpid'⟩
          split at hpid'
          · contradiction
          · next hne => exact absurd (h.unique pid' pid key hpid' hkey) hne
    · next hne =>
        rw [h.held key']
        constructor
        · rintro ⟨pid', hpid'⟩
          have hother : pid' ≠ pid := by
            intro heq
            rw [heq, hkey, Option.some.injEq] at hpid'
            exact hne hpid'.symm
          exact ⟨pid', by rw [if_neg hother, hpid']⟩
        · rintro ⟨pid', hpid'⟩
          split at hpid'
          · contradiction
          · exact ⟨pid', hpid'⟩
  unique := by
    intro pid₁ pid₂ key' h₁ h₂
    simp only [Function.update_apply] at h₁ h₂
    split at h₁ <;> split at h₂
    · contradiction
    · contradiction
    · contradiction
    · exact h.unique pid₁ pid₂ key' h₁ h₂

end Holding

section Step

variable [DecidableEq κ] {M : Machine Op Reply κ α ρ σ ε δ} {P P' : Pool Op Reply κ α ρ σ}

/-- **Every step keeps account of the locks.** -/
theorem Holding.step (hlocks : ∀ tag, (M.program tag).Locks none) {holding : Nat → Option κ}
    (h : Holding P holding) {l : Label ρ ε δ} (hs : Pool.step M P l = some P') :
    ∃ holding', Holding P' holding' := by
  cases l with
  | arrive pid tag =>
      simp only [Pool.step] at hs
      cases hp : P.procs pid with
      | some p => simp only [hp] at hs; contradiction
      | none =>
          simp only [hp, Option.some.injEq] at hs
          subst hs
          refine ⟨holding, h.setProcess ?_⟩
          rw [h.absent pid hp]
          exact hlocks tag
  | drift d =>
      simp only [Pool.step, Option.map_eq_some_iff] at hs
      obtain ⟨s, -, rfl⟩ := hs
      exact ⟨holding,
        { locks := h.locks, absent := h.absent, held := h.held, unique := h.unique }⟩
  | advance pid choice env =>
      simp only [Pool.step, advance] at hs
      cases hp : P.procs pid with
      | none => simp only [hp] at hs; contradiction
      | some p =>
          have hlocked : p.rest.Locks (holding pid) := h.locks pid p hp
          simp only [hp] at hs
          cases hr : p.rest with
          | ret a => simp only [hr] at hs; contradiction
          | call op next =>
              simp only [hr, Option.some.injEq] at hs
              rw [hr] at hlocked
              subst hs
              have hset : Holding (P.setProcess pid
                  { p with log := ⟨op, (M.exec env op P.shared).1⟩ :: p.log,
                           rest := next (M.exec env op P.shared).1 }) holding :=
                h.setProcess (hlocked _)
              exact ⟨holding, { locks := hset.locks, absent := hset.absent, held := hset.held,
                                unique := hset.unique }⟩
          | acquire key next =>
              rw [hr] at hlocked
              obtain ⟨hnone, htrue, hfalse⟩ := hlocked
              simp only [hr] at hs
              split at hs
              · split at hs
                · contradiction
                · next hfree =>
                    rw [Bool.not_eq_true] at hfree
                    rw [← Option.some.inj hs]
                    exact ⟨_, h.take hfree hnone htrue⟩
              · rw [← Option.some.inj hs]
                refine ⟨holding, h.setProcess ?_⟩
                rw [hnone]
                exact hfalse
          | release key next =>
              simp only [hr, Option.some.injEq] at hs
              rw [hr] at hlocked
              subst hs
              exact ⟨_, h.giveBack hlocked.1 hlocked.2⟩
          | either l r =>
              simp only [hr, Option.some.injEq] at hs
              rw [hr] at hlocked
              subst hs
              refine ⟨holding, h.setProcess ?_⟩
              cases choice with
              | true => exact hlocked.1
              | false => exact hlocked.2

/-- In every run there is an account of the locks. -/
theorem exists_holding (hlocks : ∀ tag, (M.program tag).Locks none)
    {ok : Pool Op Reply κ α ρ σ → Label ρ ε δ → Prop}
    (hr : Reachable (step M) ok (fun P => ∃ s, P = Pool.start s) P) :
    ∃ holding, Holding P holding := by
  refine hr.invariant (fun P => ∃ holding, Holding P holding) ?_ ?_
  · rintro _ ⟨s, rfl⟩
    exact ⟨_, .start s⟩
  · rintro P l P' ⟨holding, h⟩ _ hs
    exact h.step hlocks hs

/-! ## Somebody can move -/

/-- The process is neither over nor at a lock. -/
theorem exists_step_of_ready {pid : Nat} {p : Process Op Reply κ α ρ}
    (hp : P.procs pid = some p) (hret : ∀ a, p.rest ≠ .ret a)
    (hlock : ∀ key next, p.rest = .acquire key next → P.held key = false) (env : ε) :
    ∃ P', step M P (.advance pid true env) = some P' := by
  simp only [step, advance, hp]
  cases hr : p.rest with
  | ret a => exact absurd hr (hret a)
  | call op next => exact ⟨_, rfl⟩
  | acquire key next =>
      simp only [hlock key next hr, if_true, Bool.false_eq_true, if_false]
      exact ⟨_, rfl⟩
  | release key next => exact ⟨_, rfl⟩
  | either l r => exact ⟨_, rfl⟩

/-- **While somebody is under way, somebody can move**: the process itself, or
the one that has the lock it waits for. -/
theorem exists_advance {holding : Nat → Option κ} (h : Holding P holding) {pid : Nat}
    {p : Process Op Reply κ α ρ} (hp : P.procs pid = some p) (hret : ∀ a, p.rest ≠ .ret a) :
    ∃ mover q, P.procs mover = some q ∧ (∀ a, q.rest ≠ .ret a) ∧
      (mover = pid ∨ ∃ key next, p.rest = .acquire key next ∧ holding mover = some key) ∧
      ∀ env, ∃ P', step M P (.advance mover true env) = some P' := by
  by_cases hwaits : ∃ key next, p.rest = .acquire key next ∧ P.held key = true
  · obtain ⟨key, next, hrest, hheld⟩ := hwaits
    obtain ⟨mover, hmover⟩ := (h.held key).mp hheld
    obtain ⟨q, hq⟩ : ∃ q, P.procs mover = some q := by
      cases hq : P.procs mover with
      | some q => exact ⟨q, rfl⟩
      | none =>
          rw [h.absent mover hq] at hmover
          contradiction
    have hlocked := h.locks mover q hq
    rw [hmover] at hlocked
    -- Who has a lock is not over, and does not ask for another.
    have hgoes : ∀ a, q.rest ≠ .ret a := by
      intro a heq
      rw [heq] at hlocked
      cases hlocked
    refine ⟨mover, q, hq, hgoes, .inr ⟨key, next, hrest, hmover⟩, fun env => ?_⟩
    refine exists_step_of_ready hq hgoes (fun key' next' heq => ?_) env
    rw [heq] at hlocked
    cases hlocked.1
  · refine ⟨pid, p, hp, hret, .inl rfl, fun env => ?_⟩
    refine exists_step_of_ready hp hret (fun key next hrest => ?_) env
    rw [← Bool.not_eq_true]
    exact fun hheld => hwaits ⟨key, next, hrest, hheld⟩

/-! ## Everybody is over in time -/

/-- The process a label moves. -/
def Label.mover? : Label ρ ε δ → Option Nat
  | .advance pid _ _ => some pid
  | _ => none

/-- The processes that move in a run, step by step. -/
def movers (ls : List (Label ρ ε δ)) : List Nat := ls.filterMap Label.mover?

@[simp] theorem movers_nil : movers ([] : List (Label ρ ε δ)) = [] := rfl

@[simp] theorem movers_arrive (pid : Nat) (tag : ρ) (ls : List (Label ρ ε δ)) :
    movers (.arrive pid tag :: ls) = movers ls := rfl

@[simp] theorem movers_advance (pid : Nat) (choice : Bool) (env : ε) (ls : List (Label ρ ε δ)) :
    movers (.advance pid choice env :: ls) = pid :: movers ls := rfl

@[simp] theorem movers_drift (d : δ) (ls : List (Label ρ ε δ)) :
    movers (.drift d :: ls) = movers ls := rfl

theorem movers_cons (l : Label ρ ε δ) (ls : List (Label ρ ε δ)) :
    movers (l :: ls) = movers [l] ++ movers ls := by
  rw [movers, movers, movers, ← List.filterMap_append, List.singleton_append]

/-- What is left of a process after a step is bounded by what was left before,
less the step if it was its own. -/
theorem within_step {l : Label ρ ε δ} (hs : step M P l = some P') {pid n : Nat}
    {p : Process Op Reply κ α ρ} (hp : P.procs pid = some p) (hn : p.rest.Within n) :
    ∃ q m, P'.procs pid = some q ∧ q.rest.Within m ∧ (movers [l]).count pid + m ≤ n := by
  have hother : ∀ {pid' : Nat} (q : Process Op Reply κ α ρ), pid' ≠ pid →
      (P.setProcess pid' q).procs pid = some p := by
    intro pid' q hne
    simp only [setProcess, Function.update_of_ne (Ne.symm hne), hp]
  cases l with
  | arrive pid' tag =>
      simp only [step] at hs
      cases hp' : P.procs pid' with
      | some q => simp only [hp'] at hs; contradiction
      | none =>
          simp only [hp', Option.some.injEq] at hs
          subst hs
          have hne : pid' ≠ pid := fun heq => by rw [heq, hp] at hp'; contradiction
          exact ⟨p, n, hother _ hne, hn, by simp⟩
  | drift d =>
      simp only [step, Option.map_eq_some_iff] at hs
      obtain ⟨s, -, rfl⟩ := hs
      exact ⟨p, n, hp, hn, by simp⟩
  | advance pid' choice env =>
      by_cases heq : pid' = pid
      · subst heq
        have hcount : (movers [(.advance pid' choice env : Label ρ ε δ)]).count pid' = 1 := by
          simp
        rw [hcount]
        simp only [step, advance, hp] at hs
        cases hr : p.rest with
        | ret a => simp only [hr] at hs; contradiction
        | call op next =>
            simp only [hr, Option.some.injEq] at hs
            obtain ⟨m, hlt, hnext⟩ := Program.within_call.mp (hr ▸ hn)
            subst hs
            exact ⟨_, m, perform_procs_self P pid' p op next _, hnext _, by omega⟩
        | acquire key next =>
            obtain ⟨m, hlt, hnext⟩ := Program.within_acquire.mp (hr ▸ hn)
            simp only [hr] at hs
            split at hs
            · split at hs
              · contradiction
              · rw [← Option.some.inj hs]
                exact ⟨_, m, setProcess_procs_self P pid' _, hnext true, by omega⟩
            · rw [← Option.some.inj hs]
              exact ⟨_, m, setProcess_procs_self P pid' _, hnext false, by omega⟩
        | release key next =>
            simp only [hr, Option.some.injEq] at hs
            obtain ⟨m, hlt, hnext⟩ := Program.within_release.mp (hr ▸ hn)
            subst hs
            exact ⟨_, m, setProcess_procs_self P pid' _, hnext, by omega⟩
        | either l r =>
            simp only [hr, Option.some.injEq] at hs
            obtain ⟨m, hlt, hl, hright⟩ := Program.within_either.mp (hr ▸ hn)
            subst hs
            refine ⟨_, m, setProcess_procs_self P pid' _, ?_, by omega⟩
            cases choice with
            | true => exact hl
            | false => exact hright
      · have hcount : (movers [(.advance pid' choice env : Label ρ ε δ)]).count pid = 0 := by
          simp [heq]
        rw [hcount]
        refine ⟨p, n, ?_, hn, by omega⟩
        obtain ⟨p', -, ⟨op, next, -, rfl⟩ | ⟨rest, held, -, rfl⟩⟩ := advance_cases hs
        · exact hother _ heq
        · exact hother _ heq

/-- A process under way makes no more steps than its bound, whatever the others
do. -/
theorem count_movers_le {ls : List (Label ρ ε δ)} (he : exec (step M) P ls = some P')
    {pid n : Nat} {p : Process Op Reply κ α ρ} (hp : P.procs pid = some p)
    (hn : p.rest.Within n) : (movers ls).count pid ≤ n := by
  induction ls generalizing P p n with
  | nil => simp
  | cons l ls ih =>
      rw [exec, Option.bind_eq_some_iff] at he
      obtain ⟨P₁, hs, he⟩ := he
      obtain ⟨q, m, hq, hm, hle⟩ := within_step hs hp hn
      have hrest : (movers ls).count pid ≤ m := ih he hq hm
      rw [movers_cons, List.count_append]
      omega

/-- Only what has arrived moves. -/
theorem not_mover_of_absent {l : Label ρ ε δ} (hs : step M P l = some P') {pid : Nat}
    (hp : P.procs pid = none) : (movers [l]).count pid = 0 := by
  cases l with
  | advance pid' choice env =>
      have hne : pid' ≠ pid := by
        intro heq
        simp [step, advance, heq, hp] at hs
      simp [hne]
  | _ => simp

/-- A process a step has brought about has just arrived. -/
theorem arrived_of_absent {l : Label ρ ε δ} (hs : step M P l = some P') {pid : Nat}
    (hp : P.procs pid = none) {q : Process Op Reply κ α ρ} (hq : P'.procs pid = some q) :
    l = .arrive pid q.tag ∧ q.rest = M.program q.tag := by
  rcases step_cases hs with ⟨pid', tag, rfl, -, rfl⟩ |
    ⟨pid', choice, env, p, op, next, -, hp', -, rfl⟩ |
    ⟨pid', choice, env, p, rest, held, -, hp', -, rfl⟩ | ⟨d, s, -, -, rfl⟩
  · simp only [setProcess, Function.update_apply] at hq
    split at hq
    · next heq =>
        cases hq
        exact ⟨by rw [heq], rfl⟩
    · rw [hp] at hq
      contradiction
  · have hne : pid ≠ pid' := fun heq => by rw [heq, hp'] at hp; contradiction
    simp only [perform, setProcess, Function.update_of_ne hne, hp] at hq
    contradiction
  · have hne : pid ≠ pid' := fun heq => by rw [heq, hp'] at hp; contradiction
    simp only [setProcess, Function.update_of_ne hne, hp] at hq
    contradiction
  · rw [hp] at hq
    contradiction

/-- **No process makes more steps than the bound of its program**, whatever the
others do and whenever it arrives. -/
theorem count_movers_le_of_programs {n : Nat} (hprograms : ∀ tag, (M.program tag).Within n)
    {pid : Nat} (hunder : ∀ p, P.procs pid = some p → p.rest.Within n) {ls : List (Label ρ ε δ)}
    (he : exec (step M) P ls = some P') : (movers ls).count pid ≤ n := by
  induction ls generalizing P with
  | nil => simp
  | cons l ls ih =>
      cases hp : P.procs pid with
      | some p => exact count_movers_le he hp (hunder p hp)
      | none =>
          rw [exec, Option.bind_eq_some_iff] at he
          obtain ⟨P₁, hs, he⟩ := he
          have hrest : (movers ls).count pid ≤ n := by
            refine ih (fun q hq => ?_) he
            rw [(arrived_of_absent hs hp hq).2]
            exact hprograms q.tag
          rw [movers_cons, List.count_append, not_mover_of_absent hs hp]
          omega

/-- Who is over moves no more. -/
theorem mem_of_mover {ls : List (Label ρ ε δ)} (he : exec (step M) P ls = some P')
    (hnobody : ∀ l ∈ ls, ∀ pid tag, l ≠ .arrive pid tag) {pid : Nat} (hm : pid ∈ movers ls) :
    ∃ p, P.procs pid = some p ∧ ∀ a, p.rest ≠ .ret a := by
  induction ls generalizing P with
  | nil => simp at hm
  | cons l ls ih =>
      rw [exec, Option.bind_eq_some_iff] at he
      obtain ⟨P₁, hs, he⟩ := he
      rw [movers_cons, List.mem_append] at hm
      rcases hm with hm | hm
      · cases l with
        | advance pid' choice env =>
            have heq : pid = pid' := by simpa using hm
            subst heq
            simp only [step, advance] at hs
            cases hp : P.procs pid with
            | none => simp only [hp] at hs; contradiction
            | some p =>
                refine ⟨p, rfl, fun a hret => ?_⟩
                simp [hp, hret] at hs
        | _ => simp at hm
      · obtain ⟨q, hq, hgoes⟩ :=
          ih he (fun l' hl' => hnobody l' (List.mem_cons_of_mem _ hl')) hm
        cases hp : P.procs pid with
        | none =>
            exact absurd (arrived_of_absent hs hp hq).1 (hnobody l List.mem_cons_self pid q.tag)
        | some p =>
            refine ⟨p, rfl, fun a hret => ?_⟩
            have hover : p.rest.Within 0 := by simp [hret]
            obtain ⟨q', m, hq', hm', hle⟩ := within_step hs hp hover
            have hzero : m = 0 := by omega
            rw [hzero] at hm'
            rw [hq', Option.some.injEq] at hq
            obtain ⟨b, hb⟩ := hm'.over
            exact hgoes b (hq ▸ hb)

/-- **A run in which nobody arrives is over in time**: it has no more steps than
the bounds of those under way allow. -/
theorem length_movers_le {n : Nat} (hunder : ∀ pid p, P.procs pid = some p → p.rest.Within n)
    {pids : Finset Nat}
    (hpids : ∀ pid p, P.procs pid = some p → (∀ a, p.rest ≠ .ret a) → pid ∈ pids)
    {ls : List (Label ρ ε δ)} (hnobody : ∀ l ∈ ls, ∀ pid tag, l ≠ .arrive pid tag)
    (he : exec (step M) P ls = some P') : (movers ls).length ≤ n * pids.card := by
  have hsubset : (movers ls).toFinset ⊆ pids := by
    intro pid hm
    obtain ⟨p, hp, hgoes⟩ := mem_of_mover he hnobody (List.mem_toFinset.mp hm)
    exact hpids pid p hp hgoes
  have hcount : ∀ pid ∈ (movers ls).toFinset, (movers ls).count pid ≤ n := by
    intro pid hm
    obtain ⟨p, hp, -⟩ := mem_of_mover he hnobody (List.mem_toFinset.mp hm)
    exact count_movers_le he hp (hunder pid p hp)
  calc (movers ls).length
      = ∑ pid ∈ (movers ls).toFinset, (movers ls).count pid :=
        (List.sum_toFinset_count_eq_length _).symm
    _ ≤ (movers ls).toFinset.card * n := by
        simpa using Finset.sum_le_card_nsmul _ _ n hcount
    _ ≤ n * pids.card := by
        rw [Nat.mul_comm]
        exact Nat.mul_le_mul_left n (Finset.card_le_card hsubset)

/-- Everybody is over. -/
def Quiet (P : Pool Op Reply κ α ρ σ) : Prop :=
  ∀ pid p, P.procs pid = some p → ∃ a, p.rest = .ret a

/-- Only finitely many have arrived. -/
theorem exists_arrived {ok : Pool Op Reply κ α ρ σ → Label ρ ε δ → Prop}
    (hr : Reachable (step M) ok (fun P => ∃ s, P = Pool.start s) P) :
    ∃ pids : Finset Nat, ∀ pid p, P.procs pid = some p → pid ∈ pids := by
  refine hr.invariant (fun P => ∃ pids : Finset Nat, ∀ pid p, P.procs pid = some p → pid ∈ pids)
    ?_ ?_
  · rintro _ ⟨s, rfl⟩
    exact ⟨∅, fun pid p hp => by simp [Pool.start] at hp⟩
  · rintro P l P' ⟨pids, h⟩ _ hs
    by_cases harrives : ∃ pid tag, l = .arrive pid tag
    · obtain ⟨pid', tag, rfl⟩ := harrives
      refine ⟨insert pid' pids, fun pid q hq => ?_⟩
      rw [Finset.mem_insert]
      cases hp : P.procs pid with
      | some p => exact .inr (h pid p hp)
      | none =>
          have heq := (arrived_of_absent hs hp hq).1
          cases heq
          exact .inl rfl
    · refine ⟨pids, fun pid q hq => ?_⟩
      cases hp : P.procs pid with
      | some p => exact h pid p hp
      | none => exact absurd ⟨pid, q.tag, (arrived_of_absent hs hp hq).1⟩ harrives

/-- What is left of a process is bounded as its program is. -/
theorem within_of_reachable {n : Nat} (hprograms : ∀ tag, (M.program tag).Within n)
    {ok : Pool Op Reply κ α ρ σ → Label ρ ε δ → Prop}
    (hr : Reachable (step M) ok (fun P => ∃ s, P = Pool.start s) P) {pid : Nat}
    {p : Process Op Reply κ α ρ} (hp : P.procs pid = some p) : p.rest.Within n := by
  have hsound : Sound M (fun _ _ => True) P :=
    .of_reachable (fun _ => trivial) (fun _ _ _ _ _ => trivial) (fun _ _ _ _ => trivial) hr
  exact (hsound.trail pid p hp).within (hprograms p.tag)

/-- A run in which nobody arrives; `choose` says of each step how its operation
goes, from the run so far and who moves. -/
inductive Driven (choose : List (Label ρ ε δ) → Nat → ε) : List (Label ρ ε δ) → Prop
  | start : Driven choose []
  | advance {ls : List (Label ρ ε δ)} (h : Driven choose ls) (pid : Nat) :
      Driven choose (ls ++ [.advance pid true (choose ls pid)])

/-- Somebody moves in every step of it. -/
theorem Driven.length_movers {choose : List (Label ρ ε δ) → Nat → ε} {ls : List (Label ρ ε δ)}
    (h : Driven choose ls) : (movers ls).length = ls.length := by
  induction h with
  | start => rfl
  | advance h pid ih =>
      rw [movers, List.filterMap_append, List.length_append, List.length_append, ← movers, ih]
      rfl

theorem Driven.nobody_arrives {choose : List (Label ρ ε δ) → Nat → ε} {ls : List (Label ρ ε δ)}
    (h : Driven choose ls) : ∀ l ∈ ls, ∀ pid tag, l ≠ .arrive pid tag := by
  induction h with
  | start => simp
  | advance h pid ih =>
      intro l hl pid' tag
      rcases List.mem_append.mp hl with hl | hl
      · exact ih l hl pid' tag
      · rw [List.mem_singleton.mp hl]
        simp

/-- **Everybody can be brought to the end**, however each operation goes, in no
more steps than the bounds of those under way allow. -/
theorem exists_quiet {n : Nat} (hprograms : ∀ tag, (M.program tag).Within n)
    (hlocks : ∀ tag, (M.program tag).Locks none)
    (hr : Reachable (step M) anyStep (fun P => ∃ s, P = Pool.start s) P)
    (choose : List (Label ρ ε δ) → Nat → ε) :
    ∃ ls P', Driven choose ls ∧ exec (step M) P ls = some P' ∧ P'.Quiet := by
  obtain ⟨pids, hpids⟩ := exists_arrived hr
  have hunder : ∀ pid p, P.procs pid = some p → p.rest.Within n :=
    fun pid p hp => within_of_reachable hprograms hr hp
  -- A run goes on until all are quiet, and cannot go on beyond the bound.
  have hgoesOn : ∀ k : Nat, ∃ ls P', Driven choose ls ∧ exec (step M) P ls = some P' ∧
      (P'.Quiet ∨ ls.length = k) := by
    intro k
    induction k with
    | zero => exact ⟨[], P, .start, rfl, .inr rfl⟩
    | succ k ih =>
        obtain ⟨ls, P', hls, hrun, hquiet | hlength⟩ := ih
        · exact ⟨ls, P', hls, hrun, .inl hquiet⟩
        by_cases hquiet : P'.Quiet
        · exact ⟨ls, P', hls, hrun, .inl hquiet⟩
        simp only [Quiet, not_forall, not_exists] at hquiet
        obtain ⟨pid, p, hp, hret⟩ := hquiet
        obtain ⟨holding, hh⟩ := exists_holding hlocks (.of_exec hr hrun)
        obtain ⟨mover, q, -, -, -, hmoves⟩ := exists_advance (M := M) hh hp hret
        obtain ⟨P'', hs⟩ := hmoves (choose ls mover)
        refine ⟨_, P'', hls.advance mover, ?_, .inr (by simp [hlength])⟩
        rw [exec_append, hrun, Option.bind_some, exec, hs]
        rfl
  obtain ⟨ls, P', hls, hrun, hquiet | hlength⟩ := hgoesOn (n * pids.card + 1)
  · exact ⟨ls, P', hls, hrun, hquiet⟩
  · have hbound := length_movers_le hunder (fun pid p hp _ => hpids pid p hp)
      hls.nobody_arrives hrun
    rw [hls.length_movers] at hbound
    omega

end Step

end Pool

end Library
