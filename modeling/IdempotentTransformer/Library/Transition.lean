import Mathlib.Logic.Function.Basic

/-!
# IdempotentTransformer.Library.Transition

Labelled transition systems given by a partial step function: a label
names everything the environment chooses (who moves, what a clock shows,
which call fails), so one label determines one step.

* `exec` runs a list of labels and is computable, so a concrete run is
  evaluated, not derived;
* `Reachable` collects the states of every run whose steps all meet a
  condition, and carries the one induction all run theorems use
  (`Reachable.invariant`).
-/

namespace Library

/-- A partial step function over labels. -/
abbrev Step (σ L : Type) := σ → L → Option σ

variable {σ τ L M : Type}

/-- Run the labels in order; `none` as soon as one of them is not enabled. -/
def exec (step : Step σ L) (s : σ) : List L → Option σ
  | [] => some s
  | l :: ls => (step s l).bind fun s' => exec step s' ls

/-- A longer run goes on where the shorter one ended. -/
theorem exec_append (step : Step σ L) (s : σ) (ls ls' : List L) :
    exec step s (ls ++ ls') = (exec step s ls).bind fun s' => exec step s' ls' := by
  induction ls generalizing s with
  | nil => rfl
  | cons l ls ih => simp only [List.cons_append, exec, ih, Option.bind_assoc]

/-- A run splits where its labels do. -/
theorem exec_of_append {step : Step σ L} {s s₁ s₂ : σ} {ls ls' : List L}
    (h₁ : exec step s ls = some s₁) (h₂ : exec step s (ls ++ ls') = some s₂) :
    exec step s₁ ls' = some s₂ := by
  rw [exec_append, h₁] at h₂
  exact h₂

/-- Run the labels in order; `none` also as soon as one of them does not meet
`ok`. -/
def execOk (step : Step σ L) (ok : σ → L → Prop) [∀ s l, Decidable (ok s l)] (s : σ) :
    List L → Option σ
  | [] => some s
  | l :: ls => if ok s l then (step s l).bind fun s' => execOk step ok s' ls else none

/-- What is computed of a run's outcome holds of it. -/
theorem eq_of_outcome {α : Type} {run : Option σ} {s : σ} (h : run = some s) (f : σ → α) {a : α}
    (ha : run.map f = some a) : f s = a := by
  rw [h, Option.map_some, Option.some.injEq] at ha
  exact ha

/-- The states of the runs from `init` all of whose steps meet `ok`. -/
inductive Reachable (step : Step σ L) (ok : σ → L → Prop) (init : σ → Prop) : σ → Prop
  | start {s : σ} (h : init s) : Reachable step ok init s
  | step {s s' : σ} {l : L} (hr : Reachable step ok init s) (hok : ok s l)
      (hs : step s l = some s') : Reachable step ok init s'

/-- No condition on the steps. -/
def anyStep (_ : σ) (_ : L) : Prop := True

namespace Reachable

variable {step : Step σ L} {ok ok' : σ → L → Prop} {init : σ → Prop} {s s' : σ}

/-- **The invariant rule**: what holds at the start and is preserved by
every admitted step out of a state where it holds, holds in every state
reached. -/
theorem invariant (I : σ → Prop) (hr : Reachable step ok init s)
    (hinit : ∀ s, init s → I s)
    (hstep : ∀ s l s', I s → ok s l → step s l = some s' → I s') : I s := by
  induction hr with
  | start h => exact hinit _ h
  | step _ hok hs ih => exact hstep _ _ _ ih hok hs

/-- The invariant rule where the step lemma may use that the state it
starts from is itself reachable. -/
theorem invariant_of_reachable (I : σ → Prop) (hr : Reachable step ok init s)
    (hinit : ∀ s, init s → I s)
    (hstep : ∀ s l s', Reachable step ok init s → I s → ok s l → step s l = some s' → I s') :
    I s := by
  induction hr with
  | start h => exact hinit _ h
  | step hr hok hs ih => exact hstep _ _ _ hr ih hok hs

/-- Weakening the condition on the steps keeps every reachable state. -/
theorem mono (hr : Reachable step ok init s) (h : ∀ s l, ok s l → ok' s l) :
    Reachable step ok' init s := by
  induction hr with
  | start h => exact .start h
  | step _ hok hs ih => exact .step ih (h _ _ hok) hs

/-- Runs compose: what is reached from a reached state is reached. -/
theorem trans (hr : Reachable step ok init s) (hr' : Reachable step ok (· = s) s') :
    Reachable step ok init s' := by
  induction hr' with
  | start h => exact h ▸ hr
  | step _ hok hs ih => exact .step ih hok hs

/-- A run begins with its first step. -/
theorem head {l : L} (hok : ok s l) (hs : step s l = some s') {t : σ}
    (hr : Reachable step ok (· = s') t) : Reachable step ok (· = s) t :=
  (Reachable.step (.start rfl) hok hs : Reachable step ok (· = s) s').trans hr

/-- The final state of an executed list of labels is reachable. -/
theorem of_exec (hr : Reachable step anyStep init s) {ls : List L}
    (he : exec step s ls = some s') : Reachable step anyStep init s' := by
  induction ls generalizing s with
  | nil =>
      simp only [exec, Option.some.injEq] at he
      exact he ▸ hr
  | cons l ls ih =>
      simp only [exec, Option.bind_eq_some_iff] at he
      obtain ⟨t, ht, he⟩ := he
      exact ih (.step hr trivial ht) he

/-- So it is under a condition its labels meet in every state. -/
theorem of_exec_all (hr : Reachable step ok init s) {ls : List L} (hok : ∀ l ∈ ls, ∀ t, ok t l)
    (he : exec step s ls = some s') : Reachable step ok init s' := by
  induction ls generalizing s with
  | nil =>
      simp only [exec, Option.some.injEq] at he
      exact he ▸ hr
  | cons l ls ih =>
      simp only [exec, Option.bind_eq_some_iff] at he
      obtain ⟨t, ht, he⟩ := he
      exact ih (.step hr (hok l List.mem_cons_self s) ht)
        (fun l' hl' => hok l' (List.mem_cons_of_mem _ hl')) he

/-- The final state of an executed list of labels, each of which meets the
condition. -/
theorem of_execOk [∀ s l, Decidable (ok s l)] (hr : Reachable step ok init s) {ls : List L}
    (he : execOk step ok s ls = some s') : Reachable step ok init s' := by
  induction ls generalizing s with
  | nil =>
      simp only [execOk, Option.some.injEq] at he
      exact he ▸ hr
  | cons l ls ih =>
      rw [execOk] at he
      split at he
      · next hok =>
          rw [Option.bind_eq_some_iff] at he
          obtain ⟨t, ht, he⟩ := he
          exact ih (.step hr hok ht) he
      · contradiction

/-- **Simulation**: if `f` sends initial states to initial states and every
admitted step to a (possibly empty) run of the target system, it sends
reachable states to reachable states. -/
theorem map {step' : Step τ M} {okT : τ → M → Prop} {init' : τ → Prop} (f : σ → τ)
    (hr : Reachable step ok init s) (hinit : ∀ s, init s → init' (f s))
    (hstep : ∀ s l s', Reachable step ok init s → ok s l → step s l = some s' →
      Reachable step' okT (· = f s) (f s')) :
    Reachable step' okT init' (f s) := by
  induction hr with
  | start h => exact .start (hinit _ h)
  | step hr hok hs ih => exact ih.trans (hstep _ _ _ hr hok hs)

end Reachable

end Library
