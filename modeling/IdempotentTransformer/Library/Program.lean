import IdempotentTransformer.Library.Transition

/-!
# IdempotentTransformer.Library.Program

Programs over a shared state that act only through atomic operations.

A program is a finite tree: a call branches on its reply.  `join` is the
concurrent composition of two programs: at every point either side may
move next.  `isolated` runs a program to its end with nobody else moving;
`IdempotentTransformer.Library.Pool` lets many programs take turns.

`Trail` is what a program can have done and have left at any moment, with
the replies unconstrained.  `Obeys` is a condition on every call and on
the result, each allowed to look at the calls the program has made so far
and their replies; it is checked once per program, without a word about
the other programs, and holds along every trail (`Trail.obeys`).
-/

namespace Library

/-- Programs over operations `Op` with replies `Reply`, locks named by `κ`
and results in `α`. -/
inductive Program (Op : Type) (Reply : Op → Type) (κ α : Type) where
  /-- The program is over. -/
  | ret (result : α)
  /-- One atomic operation; the rest depends on its reply. -/
  | call (op : Op) (next : Reply op → Program Op Reply κ α)
  /-- Wait for a lock and take it (`true`), or fail to (`false`). -/
  | acquire (key : κ) (next : Bool → Program Op Reply κ α)
  /-- Give a lock back. -/
  | release (key : κ) (next : Program Op Reply κ α)
  /-- The scheduler decides how to go on. -/
  | either (left right : Program Op Reply κ α)

namespace Program

variable {Op : Type} {Reply : Op → Type} {κ α β γ σ : Type}

/-! ## Sequential composition -/

/-- Run the first program and hand its result to the second. -/
def bind : Program Op Reply κ α → (α → Program Op Reply κ β) → Program Op Reply κ β
  | .ret a, f => f a
  | .call op next, f => .call op fun r => (next r).bind f
  | .acquire key next, f => .acquire key fun b => (next b).bind f
  | .release key next, f => .release key (next.bind f)
  | .either l r, f => .either (l.bind f) (r.bind f)

instance : Monad (Program Op Reply κ) where
  pure := .ret
  bind := bind

/-- Apply a function to the result. -/
def mapResult (f : α → β) (p : Program Op Reply κ α) : Program Op Reply κ β :=
  p.bind fun a => .ret (f a)

/-- A single operation as a program. -/
def lift (op : Op) : Program Op Reply κ (Reply op) := .call op .ret

@[simp] theorem pure_eq (a : α) : (pure a : Program Op Reply κ α) = .ret a := rfl

@[simp] theorem bind_eq (p : Program Op Reply κ α) (f : α → Program Op Reply κ β) :
    p >>= f = p.bind f := rfl

@[simp] theorem ret_bind (a : α) (f : α → Program Op Reply κ β) :
    (Program.ret a).bind f = f a := rfl

@[simp] theorem call_bind (op : Op) (next : Reply op → Program Op Reply κ α)
    (f : α → Program Op Reply κ β) :
    (Program.call op next).bind f = .call op fun r => (next r).bind f := rfl

@[simp] theorem acquire_bind (key : κ) (next : Bool → Program Op Reply κ α)
    (f : α → Program Op Reply κ β) :
    (Program.acquire key next).bind f = .acquire key fun b => (next b).bind f := rfl

@[simp] theorem release_bind (key : κ) (next : Program Op Reply κ α)
    (f : α → Program Op Reply κ β) :
    (Program.release key next).bind f = .release key (next.bind f) := rfl

@[simp] theorem either_bind (l r : Program Op Reply κ α) (f : α → Program Op Reply κ β) :
    (Program.either l r).bind f = .either (l.bind f) (r.bind f) := rfl

/-! ## Concurrent composition -/

/-- Interleave the steps of a program with one pending step of its
partner: the partner's step (`partner q`, which then goes on with what is
left of this program) may come before any step of this program. -/
def interleave (partner : Program Op Reply κ β → Program Op Reply κ γ) :
    Program Op Reply κ β → Program Op Reply κ γ
  | .ret b => partner (.ret b)
  | .call op next =>
      .either (partner (.call op next)) (.call op fun r => interleave partner (next r))
  | .acquire key next =>
      .either (partner (.acquire key next)) (.acquire key fun b => interleave partner (next b))
  | .release key next =>
      .either (partner (.release key next)) (.release key (interleave partner next))
  | .either l r => .either (interleave partner l) (interleave partner r)

/-- Run two programs concurrently and collect both results. -/
def join : Program Op Reply κ α → Program Op Reply κ β → Program Op Reply κ (α × β)
  | .ret a => fun q => q.mapResult (Prod.mk a)
  | .call op next => interleave fun q => .call op fun r => join (next r) q
  | .acquire key next => interleave fun q => .acquire key fun b => join (next b) q
  | .release key next => interleave fun q => .release key (join next q)
  | .either l r => fun q => .either (join l q) (join r q)

/-! ## Running in isolation -/

/-- Run a program to its end with nobody else moving.  Locks are free then,
and the order in which a `join` takes its steps is the textual one. -/
def isolated (exec : (op : Op) → σ → Reply op × σ) : Program Op Reply κ α → σ → α × σ
  | .ret a, s => (a, s)
  | .call op next, s => isolated exec (next (exec op s).1) (exec op s).2
  | .acquire _ next, s => isolated exec (next true) s
  | .release _ next, s => isolated exec next s
  | .either l _, s => isolated exec l s

section Isolated

variable (exec : (op : Op) → σ → Reply op × σ)

@[simp] theorem isolated_ret (a : α) (s : σ) :
    isolated exec (.ret a : Program Op Reply κ α) s = (a, s) := rfl

@[simp] theorem isolated_call (op : Op) (next : Reply op → Program Op Reply κ α) (s : σ) :
    isolated exec (.call op next) s = isolated exec (next (exec op s).1) (exec op s).2 := rfl

@[simp] theorem isolated_acquire (key : κ) (next : Bool → Program Op Reply κ α) (s : σ) :
    isolated exec (.acquire key next) s = isolated exec (next true) s := rfl

@[simp] theorem isolated_release (key : κ) (next : Program Op Reply κ α) (s : σ) :
    isolated exec (.release key next) s = isolated exec next s := rfl

@[simp] theorem isolated_either (l r : Program Op Reply κ α) (s : σ) :
    isolated exec (.either l r) s = isolated exec l s := rfl

theorem isolated_bind (p : Program Op Reply κ α) (f : α → Program Op Reply κ β) (s : σ) :
    isolated exec (p.bind f) s =
      isolated exec (f (isolated exec p s).1) (isolated exec p s).2 := by
  induction p generalizing s with
  | ret a => rfl
  | call op next ih => simp [ih]
  | acquire key next ih => simp [ih]
  | release key next ih => simp [ih]
  | either l r ihl ihr => simp [ihl]

theorem isolated_interleave (partner : Program Op Reply κ β → Program Op Reply κ γ)
    (q : Program Op Reply κ β) (s : σ)
    (hp : ∀ l r, isolated exec (partner (.either l r)) s = isolated exec (partner l) s) :
    isolated exec (interleave partner q) s = isolated exec (partner q) s := by
  induction q with
  | ret b => rfl
  | call op next ih => simp [interleave]
  | acquire key next ih => simp [interleave]
  | release key next ih => simp [interleave]
  | either l r ihl ihr => simp [interleave, ihl, hp]

/-- In isolation a join is its left side followed by its right side. -/
theorem isolated_join (p : Program Op Reply κ α) (q : Program Op Reply κ β) (s : σ) :
    isolated exec (join p q) s =
      (((isolated exec p s).1, (isolated exec q (isolated exec p s).2).1),
        (isolated exec q (isolated exec p s).2).2) := by
  induction p generalizing q s with
  | ret a => simp [join, mapResult, isolated_bind]
  | call op next ih => simp [join, isolated_interleave, ih]
  | acquire key next ih => simp [join, isolated_interleave, ih]
  | release key next ih => simp [join, isolated_interleave, ih]
  | either l r ihl ihr => simp [join, ihl]

/-- What no operation changes, no isolated run changes. -/
theorem isolated_frame {τ : Type} (f : σ → τ) (hf : ∀ op s, f (exec op s).2 = f s)
    (p : Program Op Reply κ α) (s : σ) : f (isolated exec p s).2 = f s := by
  induction p generalizing s with
  | ret a => rfl
  | call op next ih => rw [isolated_call, ih, hf]
  | acquire key next ih => rw [isolated_acquire, ih]
  | release key next ih => rw [isolated_release, ih]
  | either l r ihl ihr => rw [isolated_either, ihl]

end Isolated

/-! ## Call discipline -/

/-- The calls a program has made with their replies, latest first. -/
abbrev Log (Op : Type) (Reply : Op → Type) := List ((op : Op) × Reply op)

/-- Whatever the replies and the scheduler's choices: every call meets `C`
and the result meets `Q`, both given the log of the calls before. -/
def Obeys (C : Log Op Reply → Op → Prop) (Q : Log Op Reply → α → Prop) :
    Log Op Reply → Program Op Reply κ α → Prop
  | log, .ret a => Q log a
  | log, .call op next => C log op ∧ ∀ r, Obeys C Q (⟨op, r⟩ :: log) (next r)
  | log, .acquire _ next => ∀ b, Obeys C Q log (next b)
  | log, .release _ next => Obeys C Q log next
  | log, .either l r => Obeys C Q log l ∧ Obeys C Q log r

section Obeys

variable {C : Log Op Reply → Op → Prop} {log : Log Op Reply}

@[simp] theorem obeys_ret {Q : Log Op Reply → α → Prop} (a : α) :
    Obeys C Q log (.ret a : Program Op Reply κ α) ↔ Q log a := Iff.rfl

@[simp] theorem obeys_call {Q : Log Op Reply → α → Prop} (op : Op)
    (next : Reply op → Program Op Reply κ α) :
    Obeys C Q log (.call op next) ↔ C log op ∧ ∀ r, Obeys C Q (⟨op, r⟩ :: log) (next r) :=
  Iff.rfl

@[simp] theorem obeys_acquire {Q : Log Op Reply → α → Prop} (key : κ)
    (next : Bool → Program Op Reply κ α) :
    Obeys C Q log (.acquire key next) ↔ ∀ b, Obeys C Q log (next b) := Iff.rfl

@[simp] theorem obeys_release {Q : Log Op Reply → α → Prop} (key : κ)
    (next : Program Op Reply κ α) :
    Obeys C Q log (.release key next) ↔ Obeys C Q log next := Iff.rfl

@[simp] theorem obeys_either {Q : Log Op Reply → α → Prop} (l r : Program Op Reply κ α) :
    Obeys C Q log (.either l r) ↔ Obeys C Q log l ∧ Obeys C Q log r := Iff.rfl

/-- The rule for sequential composition. -/
theorem obeys_bind {Q : Log Op Reply → β → Prop} (p : Program Op Reply κ α)
    (f : α → Program Op Reply κ β) :
    Obeys C Q log (p.bind f) ↔ Obeys C (fun log' a => Obeys C Q log' (f a)) log p := by
  induction p generalizing log with
  | ret a => rfl
  | call op next ih => simp [ih]
  | acquire key next ih => simp [ih]
  | release key next ih => simp [ih]
  | either l r ihl ihr => simp [ihl, ihr]

/-- A condition that further calls do not take away. -/
def Stable {β : Type} (C : Log Op Reply → β → Prop) : Prop :=
  ∀ ⦃log log' b⦄, log ⊆ log' → C log b → C log' b

/-- A stable discipline is kept from any larger log on. -/
theorem Obeys.mono {Q : Log Op Reply → α → Prop} (hC : Stable C) (hQ : Stable Q)
    {log' : Log Op Reply} (hl : log ⊆ log') {p : Program Op Reply κ α} (h : Obeys C Q log p) :
    Obeys C Q log' p := by
  induction p generalizing log log' with
  | ret a => exact hQ hl h
  | call op next ih => exact ⟨hC hl h.1, fun r => ih r (List.cons_subset_cons _ hl) (h.2 r)⟩
  | acquire key next ih => exact fun b => ih b hl (h b)
  | release key next ih => exact ih hl h
  | either l r ihl ihr => exact ⟨ihl hl h.1, ihr hl h.2⟩

/-- The result may be used together with the fact that logs only grow. -/
theorem Obeys.imp {Q Q' : Log Op Reply → α → Prop} {p : Program Op Reply κ α}
    (hQ : ∀ log' a, log ⊆ log' → Q log' a → Q' log' a) (h : Obeys C Q log p) :
    Obeys C Q' log p := by
  induction p generalizing log with
  | ret a => exact hQ log a (List.Subset.refl _) h
  | call op next ih =>
      exact ⟨h.1, fun r => ih r (fun log' a hl => hQ log' a
        (List.Subset.trans (List.subset_cons_self _ _) hl)) (h.2 r)⟩
  | acquire key next ih => exact fun b => ih b hQ (h b)
  | release key next ih => exact ih hQ h
  | either l r ihl ihr => exact ⟨ihl hQ h.1, ihr hQ h.2⟩

/-- The partner's step may come at any point of a stable program. -/
theorem obeys_interleave {B : Log Op Reply → β → Prop} {Q : Log Op Reply → γ → Prop}
    {partner : Program Op Reply κ β → Program Op Reply κ γ}
    (hp : ∀ log' q, log ⊆ log' → Obeys C B log' q → Obeys C Q log' (partner q))
    {q : Program Op Reply κ β}
    (hq : Obeys C B log q) : Obeys C Q log (interleave partner q) := by
  have hself : log ⊆ log := List.Subset.refl _
  induction q generalizing log with
  | ret b => exact hp log _ hself hq
  | call op next ih =>
      refine ⟨hp log _ hself hq, hq.1, fun r => ?_⟩
      exact ih r (fun log' q hl => hp log' q (List.Subset.trans (List.subset_cons_self _ _) hl))
        (hq.2 r) (List.Subset.refl _)
  | acquire key next ih => exact ⟨hp log _ hself hq, fun b => ih b hp (hq b) hself⟩
  | release key next ih => exact ⟨hp log _ hself hq, ih hp hq hself⟩
  | either l r ihl ihr => exact ⟨ihl hp hq.1 hself, ihr hp hq.2 hself⟩

/-- **The rule for concurrent composition**: two programs that each keep a
stable discipline keep it side by side. -/
theorem obeys_join {A : Log Op Reply → α → Prop} {B : Log Op Reply → β → Prop} (hC : Stable C)
    (hA : Stable A) (hB : Stable B) {p : Program Op Reply κ α} {q : Program Op Reply κ β}
    (hp : Obeys C A log p) (hq : Obeys C B log q) :
    Obeys C (fun log' ab => A log' ab.1 ∧ B log' ab.2) log (join p q) := by
  induction p generalizing log q with
  | ret a =>
      simp only [join, mapResult, obeys_bind]
      exact hq.imp fun log' b hl hb => ⟨hA hl hp, hb⟩
  | call op next ih =>
      rw [join]
      refine obeys_interleave (fun log' q hl hq => ?_) hq
      refine ⟨hC hl hp.1, fun r => ?_⟩
      exact ih r ((hp.2 r).mono hC hA (List.cons_subset_cons _ hl))
        (hq.mono hC hB (List.subset_cons_self _ _))
  | acquire key next ih =>
      rw [join]
      refine obeys_interleave (fun log' q hl hq => ?_) hq
      exact fun b => ih b ((hp b).mono hC hA hl) hq
  | release key next ih =>
      rw [join]
      refine obeys_interleave (fun log' q hl hq => ?_) hq
      exact ih (Obeys.mono hC hA hl hp) hq
  | either l r ihl ihr => exact ⟨ihl hp.1 hq, ihr hp.2 hq⟩

end Obeys

/-- The steps that touch no shared state but the locks. -/
inductive Silent : Program Op Reply κ α → Program Op Reply κ α → Prop
  | acquire (key : κ) (next : Bool → Program Op Reply κ α) (taken : Bool) :
      Silent (.acquire key next) (next taken)
  | release (key : κ) (next : Program Op Reply κ α) : Silent (.release key next) next
  | left (l r : Program Op Reply κ α) : Silent (.either l r) l
  | right (l r : Program Op Reply κ α) : Silent (.either l r) r

/-- A silent step keeps the discipline. -/
theorem Silent.obeys {C : Log Op Reply → Op → Prop} {Q : Log Op Reply → α → Prop}
    {log : Log Op Reply} {p p' : Program Op Reply κ α} (h : Silent p p')
    (ho : Obeys C Q log p) : Obeys C Q log p' := by
  cases h with
  | acquire key next taken => exact ho taken
  | release key next => exact ho
  | left l r => exact ho.1
  | right l r => exact ho.2

/-! ## Trails -/

/-- What is left of a program, and the calls it has made, after some of its
steps. -/
inductive Trail (p : Program Op Reply κ α) : Log Op Reply → Program Op Reply κ α → Prop
  | start : Trail p [] p
  | call {log : Log Op Reply} {op : Op} {next : Reply op → Program Op Reply κ α}
      (h : Trail p log (.call op next)) (r : Reply op) : Trail p (⟨op, r⟩ :: log) (next r)
  | silent {log : Log Op Reply} {q q' : Program Op Reply κ α} (h : Trail p log q)
      (hs : Silent q q') : Trail p log q'

namespace Trail

variable {p q : Program Op Reply κ α} {log : Log Op Reply}

/-- A discipline of the program is kept all along its trails. -/
theorem obeys {C : Log Op Reply → Op → Prop} {Q : Log Op Reply → α → Prop}
    (h : Trail p log q) (ho : Obeys C Q [] p) : Obeys C Q log q := by
  induction h with
  | start => exact ho
  | call _ r ih => exact ih.2 r
  | silent _ hs ih => exact hs.obeys ih

/-- A program that is over stays as it is. -/
theorem of_ret {a : α} (h : Trail (.ret a : Program Op Reply κ α) log q) :
    log = [] ∧ q = .ret a := by
  induction h with
  | start => exact ⟨rfl, rfl⟩
  | call _ r ih => cases ih.2
  | silent _ hs ih =>
      obtain ⟨-, rfl⟩ := ih
      cases hs

/-- A program that begins with a call makes that call first. -/
theorem of_call {op : Op} {next : Reply op → Program Op Reply κ α}
    (h : Trail (.call op next) log q) :
    (log = [] ∧ q = .call op next) ∨
      ∃ r log', log = log' ++ [⟨op, r⟩] ∧ Trail (next r) log' q := by
  induction h with
  | start => exact .inl ⟨rfl, rfl⟩
  | call h r ih =>
      rcases ih with ⟨rfl, hq⟩ | ⟨r', log', rfl, ht⟩
      · cases hq
        exact .inr ⟨r, [], rfl, .start⟩
      · exact .inr ⟨r', _ :: log', rfl, .call ht r⟩
  | silent _ hs ih =>
      rcases ih with ⟨-, rfl⟩ | ⟨r', log', hl, ht⟩
      · cases hs
      · exact .inr ⟨r', log', hl, .silent ht hs⟩

end Trail

/-! ## Programs of nothing but calls -/

/-- The program makes calls and nothing else. -/
def Direct : Program Op Reply κ α → Prop
  | .ret _ => True
  | .call _ next => ∀ r, (next r).Direct
  | _ => False

/-- A program of calls followed by programs of calls. -/
theorem Direct.bind {p : Program Op Reply κ α} {f : α → Program Op Reply κ β} (hp : p.Direct)
    (hf : ∀ a, (f a).Direct) : (p.bind f).Direct := by
  induction p with
  | ret a => exact hf a
  | call op next ih => exact fun r => ih r (hp r)
  | _ => exact hp.elim

/-- What is left of a program of calls is one. -/
theorem Trail.direct {p q : Program Op Reply κ α} {log : Log Op Reply} (h : Trail p log q)
    (hp : p.Direct) : q.Direct := by
  induction h with
  | start => exact hp
  | call _ r ih => exact ih r
  | silent _ hs ih => cases hs <;> exact ih.elim

/-- It takes no silent step. -/
theorem Direct.not_silent {p q : Program Op Reply κ α} (hp : p.Direct) : ¬ Silent p q := by
  intro hs
  cases hs <;> exact hp.elim

end Program

end Library
