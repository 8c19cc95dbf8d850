import IdempotentTransformer.Library.Progress

/-!
# IdempotentTransformer.Library.Serial

Programs that run one at a time, among any number of others that do not
concern them.

`Program.Alone` is what a program may come to with nobody else moving,
whichever way the scheduler decides; a program is `Decided` if that is what
it comes to in textual order (`Program.isolated`).  The two sides of a join
whose operations commute are (`alone_join`).

`Serially` is the machine one program at a time.  `View.serial_run` says
that an observer whose programs do not overlap sees a run of that machine,
although other programs may be anywhere in the middle of theirs;
`View.exists_run` gives every run of that machine back as one of the pool.
-/

namespace Library

namespace Program

variable {Op : Type} {Reply : Op → Type} {κ α β γ σ : Type}

/-! ## With nobody else moving -/

/-- What a program may come to from a state with nobody else moving: its locks
are free, and the scheduler's choices are open. -/
def Alone (exec : (op : Op) → σ → Reply op × σ) : Program Op Reply κ α → σ → α → σ → Prop
  | .ret a, s, b, t => b = a ∧ t = s
  | .call op next, s, b, t => Alone exec (next (exec op s).1) (exec op s).2 b t
  | .acquire _ next, s, b, t => Alone exec (next true) s b t
  | .release _ next, s, b, t => Alone exec next s b t
  | .either l r, s, b, t => Alone exec l s b t ∨ Alone exec r s b t

/-- The scheduler decides nothing: the outcome is the one in textual order. -/
def Decided (exec : (op : Op) → σ → Reply op × σ) (p : Program Op Reply κ α) : Prop :=
  ∀ s a t, Alone exec p s a t → (a, t) = isolated exec p s

/-- Two operations commute: neither sees the other, and their order leaves the
same state. -/
structure Commutes (exec : (op : Op) → σ → Reply op × σ) (op op' : Op) : Prop where
  reply : ∀ s, (exec op (exec op' s).2).1 = (exec op s).1
  reply' : ∀ s, (exec op' (exec op s).2).1 = (exec op' s).1
  state : ∀ s, (exec op (exec op' s).2).2 = (exec op' (exec op s).2).2

theorem Commutes.symm {exec : (op : Op) → σ → Reply op × σ} {op op' : Op}
    (h : Commutes exec op op') : Commutes exec op' op :=
  ⟨h.reply', h.reply, fun s => (h.state s).symm⟩

section Alone

variable {exec : (op : Op) → σ → Reply op × σ}

/-- A sequence comes to what its parts come to one after the other. -/
theorem alone_bind {p : Program Op Reply κ α} {f : α → Program Op Reply κ β} {s t : σ} {b : β} :
    Alone exec (p.bind f) s b t ↔ ∃ a u, Alone exec p s a u ∧ Alone exec (f a) u b t := by
  induction p generalizing s with
  | ret a =>
      refine ⟨fun h => ⟨a, s, ⟨rfl, rfl⟩, h⟩, ?_⟩
      rintro ⟨_, _, ⟨rfl, rfl⟩, h⟩
      exact h
  | call op next ih => exact ih _
  | acquire key next ih => exact ih true
  | release key next ih => exact ih
  | either l r ihl ihr =>
      simp only [either_bind, Alone, ihl, ihr, or_and_right, exists_or]

/-- The rule for sequential composition. -/
theorem decided_bind {p : Program Op Reply κ α} {f : α → Program Op Reply κ β}
    (hp : Decided exec p) (hf : ∀ a, Decided exec (f a)) : Decided exec (p.bind f) := by
  intro s b t h
  obtain ⟨a, u, ha, hb⟩ := alone_bind.mp h
  have hfirst : (a, u) = isolated exec p s := hp s a u ha
  rw [isolated_bind, ← hfirst]
  exact hf a u b t hb

theorem decided_ret (a : α) : Decided exec (.ret a : Program Op Reply κ α) := by
  rintro s b t ⟨rfl, rfl⟩
  rfl

/-- A program of nothing but calls is decided. -/
theorem Direct.decided {p : Program Op Reply κ α} (h : p.Direct) : Decided exec p := by
  induction p with
  | ret a => exact decided_ret a
  | call op next ih => exact fun s a t halone => ih _ (h _) _ a t halone
  | _ => exact h.elim

/-- An operation that commutes with all calls of a program may as well come
after it. -/
theorem alone_commute {C : Op → Prop} {K : κ → Prop} {p : Program Op Reply κ α}
    (hp : p.Confined C K) {op' : Op} (hcomm : ∀ op, C op → Commutes exec op op')
    {s u : σ} {a : α} (h : Alone exec p (exec op' s).2 a u) :
    ∃ v, Alone exec p s a v ∧ exec op' v = ((exec op' s).1, u) := by
  induction p generalizing s with
  | ret b =>
      obtain ⟨rfl, rfl⟩ := h
      exact ⟨s, ⟨rfl, rfl⟩, rfl⟩
  | call op next ih =>
      have hc := hcomm op hp.1
      simp only [Alone] at h
      rw [hc.reply, hc.state] at h
      obtain ⟨v, hv, heq⟩ := ih _ (hp.2 _) h
      rw [hc.reply'] at heq
      exact ⟨v, hv, heq⟩
  | acquire key next ih => exact ih true (hp.2 true) h
  | release key next ih => exact ih hp.2 h
  | either l r ihl ihr =>
      rcases h with h | h
      · obtain ⟨v, hv, heq⟩ := ihl hp.1 h
        exact ⟨v, .inl hv, heq⟩
      · obtain ⟨v, hv, heq⟩ := ihr hp.2 h
        exact ⟨v, .inr hv, heq⟩

/-- If the program's pending step may be taken first, then so it may when the
partner's calls commute with it. -/
private theorem alone_interleave {C D : Op → Prop} {K K' : κ → Prop} {p : Program Op Reply κ α}
    (hp : p.Confined C K) (hcomm : ∀ op op', C op → D op' → Commutes exec op op')
    {partner : Program Op Reply κ β → Program Op Reply κ (α × β)}
    (hpartner : ∀ q s ab t, q.Confined D K' → Alone exec (partner q) s ab t →
      ∃ u, Alone exec p s ab.1 u ∧ Alone exec q u ab.2 t)
    {q : Program Op Reply κ β} (hq : q.Confined D K') {s t : σ} {ab : α × β}
    (h : Alone exec (interleave partner q) s ab t) :
    ∃ u, Alone exec p s ab.1 u ∧ Alone exec q u ab.2 t := by
  induction q generalizing s with
  | ret b => exact hpartner _ s ab t hq h
  | call op' next ih =>
      rcases h with h | h
      · exact hpartner _ s ab t hq h
      · obtain ⟨u, ha, hb⟩ := ih _ (hq.2 _) h
        obtain ⟨v, hv, heq⟩ := alone_commute hp (fun op hop => hcomm op op' hop hq.1) ha
        refine ⟨v, hv, ?_⟩
        simp only [Alone, heq]
        exact hb
  | acquire key next ih =>
      rcases h with h | h
      · exact hpartner _ s ab t hq h
      · exact ih true (hq.2 true) h
  | release key next ih =>
      rcases h with h | h
      · exact hpartner _ s ab t hq h
      · exact ih hq.2 h
  | either l r ihl ihr =>
      rcases h with h | h
      · obtain ⟨u, ha, hb⟩ := ihl hq.1 h
        exact ⟨u, ha, .inl hb⟩
      · obtain ⟨u, ha, hb⟩ := ihr hq.2 h
        exact ⟨u, ha, .inr hb⟩

/-- **Two sides that commute come to what they come to one after the other.** -/
theorem alone_join {C D : Op → Prop} {K K' : κ → Prop} {p : Program Op Reply κ α}
    {q : Program Op Reply κ β} (hp : p.Confined C K) (hq : q.Confined D K')
    (hcomm : ∀ op op', C op → D op' → Commutes exec op op') {s t : σ} {ab : α × β}
    (h : Alone exec (join p q) s ab t) :
    ∃ u, Alone exec p s ab.1 u ∧ Alone exec q u ab.2 t := by
  induction p generalizing q s t ab with
  | ret a =>
      obtain ⟨b, u, hb, rfl, rfl⟩ := alone_bind.mp h
      exact ⟨s, ⟨rfl, rfl⟩, hb⟩
  | call op next ih =>
      refine alone_interleave hp hcomm (fun q s ab t hq h => ?_) hq h
      exact ih _ (hp.2 _) hq h
  | acquire key next ih =>
      refine alone_interleave hp hcomm (fun q s ab t hq h => ?_) hq h
      exact ih true (hp.2 true) hq h
  | release key next ih =>
      refine alone_interleave hp hcomm (fun q s ab t hq h => ?_) hq h
      exact ih hp.2 hq h
  | either l r ihl ihr =>
      rcases h with h | h
      · obtain ⟨u, ha, hb⟩ := ihl hp.1 hq h
        exact ⟨u, .inl ha, hb⟩
      · obtain ⟨u, ha, hb⟩ := ihr hp.2 hq h
        exact ⟨u, .inr ha, hb⟩

/-- The rule for concurrent composition. -/
theorem decided_join {C D : Op → Prop} {K K' : κ → Prop} {p : Program Op Reply κ α}
    {q : Program Op Reply κ β} (hp : p.Confined C K) (hq : q.Confined D K')
    (hcomm : ∀ op op', C op → D op' → Commutes exec op op') (hdp : Decided exec p)
    (hdq : Decided exec q) : Decided exec (join p q) := by
  rintro s ⟨a, b⟩ t h
  obtain ⟨u, ha, hb⟩ := alone_join hp hq hcomm h
  have hfirst : (a, u) = isolated exec p s := hdp s a u ha
  have hsecond : (b, t) = isolated exec q u := hdq u b t hb
  rw [isolated_join, ← hfirst, ← hsecond]

end Alone

end Program

/-! ## One program at a time -/

/-- A program that has been run, and what it came to. -/
structure Done (α ρ : Type) where
  pid : Nat
  tag : ρ
  result : α

variable {Op : Type} {Reply : Op → Type} {κ α ρ σ ε δ : Type}

/-- The runs of a machine one program at a time, latest first: each program is
run to its end in isolation, under the environment `envs` has for it, and the
state drifts in between.  Only the programs of `mine` are run, and only the
drifts of `seen` happen. -/
inductive Serially (M : Machine Op Reply κ α ρ σ ε δ) (envs : Nat → ε) (mine : ρ → Bool)
    (seen : δ → Bool) (s₀ : σ) : List (Done α ρ) → σ → Prop
  | start : Serially M envs mine seen s₀ [] s₀
  | handle {done : List (Done α ρ)} {s : σ}
      (h : Serially M envs mine seen s₀ done s) (pid : Nat) {tag : ρ}
      (hmine : mine tag = true) :
      Serially M envs mine seen s₀
        ({ pid := pid, tag := tag
           result := ((M.program tag).isolated (M.exec (envs pid)) s).1 } :: done)
        ((M.program tag).isolated (M.exec (envs pid)) s).2
  | drift {done : List (Done α ρ)} {s s' : σ} (h : Serially M envs mine seen s₀ done s) {d : δ}
      (hseen : seen d = true) (hd : M.drift d s = some s') :
      Serially M envs mine seen s₀ done s'

/-- A serial run has run the programs of `mine` alone. -/
theorem Serially.mine {M : Machine Op Reply κ α ρ σ ε δ} {envs : Nat → ε} {mine : ρ → Bool}
    {seen : δ → Bool} {s₀ s : σ} {done : List (Done α ρ)}
    (h : Serially M envs mine seen s₀ done s) : ∀ d ∈ done, mine d.tag = true := by
  induction h with
  | start => simp
  | handle _ pid hmine ih =>
      intro d hd
      rcases List.mem_cons.mp hd with rfl | hd
      · exact hmine
      · exact ih d hd
  | drift _ _ _ ih => exact ih

/-- What a serial run does depends on the environments of its own programs. -/
theorem Serially.congr {M : Machine Op Reply κ α ρ σ ε δ} {envs envs' : Nat → ε}
    {mine : ρ → Bool} {seen : δ → Bool} {s₀ s : σ} {done : List (Done α ρ)}
    (h : Serially M envs mine seen s₀ done s) (heq : ∀ d ∈ done, envs d.pid = envs' d.pid) :
    Serially M envs' mine seen s₀ done s := by
  induction h with
  | start => exact .start
  | @handle done s _ pid tag hmine ih =>
      have henv : envs pid = envs' pid := heq _ List.mem_cons_self
      have hrest := ih fun d hd => heq d (List.mem_cons_of_mem _ hd)
      rw [henv]
      exact hrest.handle pid hmine
  | drift _ hseen hd ih => exact (ih heq).drift hseen hd

namespace View

variable {M : Machine Op Reply κ α ρ σ ε δ} (V : View M)

/-- A program the observer sees is under way. -/
def Busy (P : Pool Op Reply κ α ρ σ) : Prop :=
  ∃ pid p, P.procs pid = some p ∧ V.mine p.tag = true ∧ ∀ a, p.rest ≠ .ret a

/-- The programs the observer sees do not overlap each other nor the drifts it
sees, and their operations go as `envs` says.  Of the others nothing is asked. -/
def OneAtATime (envs : Nat → ε) (P : Pool Op Reply κ α ρ σ) : Pool.Label ρ ε δ → Prop
  | .arrive _ tag => V.mine tag = true → ¬ V.Busy P
  | .drift d => V.seen d = true → ¬ V.Busy P
  | .advance pid choice env => ∀ p, P.procs pid = some p → V.mine p.tag = true →
      env = envs pid ∧ ∀ key next, p.rest = .acquire key next → choice = true

/-- How far the observer's programs are: those of `done` are over, and `current`
is in the middle of its own, where the serial machine has come from `s` to
`t`. -/
structure Follows (envs : Nat → ε) (s₀ : σ) (P : Pool Op Reply κ α ρ σ) (done : List (Done α ρ))
    (s t : σ) (current : Option Nat) : Prop where
  serially : Serially M envs V.mine V.seen s₀ done s
  agree : V.Agree P.shared t
  own : ∀ pid p, P.procs pid = some p → V.mine p.tag = true → p.rest.Confined V.own V.near
  foreign : ∀ pid p, P.procs pid = some p → V.mine p.tag = false →
    p.rest.Confined V.foreign V.far
  nodup : (done.map Done.pid).Nodup
  finished : ∀ d ∈ done, ∃ p, P.procs d.pid = some p ∧ p.tag = d.tag ∧ p.rest = .ret d.result ∧
    V.mine d.tag = true
  accounted : ∀ pid p, P.procs pid = some p → V.mine p.tag = true →
    pid ∈ done.map Done.pid ∨ current = some pid
  idle : current = none → t = s
  busy : ∀ pid, current = some pid → pid ∉ done.map Done.pid ∧ ∃ p, P.procs pid = some p ∧
    V.mine p.tag = true ∧ ∀ a t', p.rest.Alone (M.exec (envs pid)) t a t' →
      (a, t') = (M.program p.tag).isolated (M.exec (envs pid)) s

/-- The observer's programs are at some point of a serial run. -/
def Serial (envs : Nat → ε) (s₀ : σ) (P : Pool Op Reply κ α ρ σ) : Prop :=
  ∃ done s t current, V.Follows envs s₀ P done s t current

variable {V} {envs : Nat → ε} {s₀ : σ} {P P' : Pool Op Reply κ α ρ σ} {done : List (Done α ρ)}
  {s t : σ} {current : Option Nat}

/-- Nothing has arrived. -/
theorem Follows.start (h : V.Agree s₀ s₀) : V.Follows envs s₀ (Pool.start s₀)
    [] s₀ s₀ none where
  serially := .start
  agree := h
  own := fun _ _ hp => by simp [Pool.start] at hp
  foreign := fun _ _ hp => by simp [Pool.start] at hp
  nodup := List.nodup_nil
  finished := fun _ hd => by simp at hd
  accounted := fun _ _ hp => by simp [Pool.start] at hp
  idle := fun _ => rfl
  busy := fun _ h => by simp at h

/-- The program under way is over: the serial machine has run it. -/
theorem Follows.settle (h : V.Follows envs s₀ P done s t current) (hidle : ¬ V.Busy P) :
    ∃ done', V.Follows envs s₀ P done' t t none := by
  cases hc : current with
  | none =>
      rw [hc] at h
      have hst : t = s := h.idle rfl
      rw [← hst] at h
      exact ⟨done, h⟩
  | some pid =>
      rw [hc] at h
      obtain ⟨hnew, p, hp, hmine, houtcome⟩ := h.busy pid rfl
      obtain ⟨a, hret⟩ : ∃ a, p.rest = .ret a := by
        refine Classical.byContradiction fun hno => hidle ⟨pid, p, hp, hmine, fun a ha => ?_⟩
        exact hno ⟨a, ha⟩
      have heq := houtcome a t (by rw [hret]; exact ⟨rfl, rfl⟩)
      have hserially := h.serially.handle pid hmine
      rw [← heq] at hserially
      refine ⟨_, { h with serially := hserially, nodup := ?_, finished := ?_, accounted := ?_,
                          idle := fun _ => rfl, busy := fun _ hsome => by simp at hsome }⟩
      · exact List.nodup_cons.mpr ⟨hnew, h.nodup⟩
      · intro d hd
        rcases List.mem_cons.mp hd with rfl | hd
        · exact ⟨p, hp, rfl, hret, hmine⟩
        · exact h.finished d hd
      · intro pid' p' hp' hmine'
        rcases h.accounted pid' p' hp' hmine' with hd | hcur
        · exact .inl (List.mem_cons_of_mem _ hd)
        · exact .inl (by rw [Option.some.inj hcur]; exact List.mem_cons_self)

/-- A program the observer sees arrives. -/
theorem Follows.arrive (h : V.Follows envs s₀ P done t t none) {pid : Nat} {tag : ρ}
    (hp : P.procs pid = none) (hmine : V.mine tag = true)
    (hdecided : (M.program tag).Decided (M.exec (envs pid))) :
    V.Follows envs s₀
      (P.setProcess pid { tag := tag, log := [], rest := M.program tag }) done t t
      (some pid) where
  serially := h.serially
  agree := h.agree
  own := by
    intro pid' p' hp' hmine'
    simp only [Pool.setProcess, Function.update_apply] at hp'
    split at hp'
    · cases hp'
      exact V.confined_own tag hmine
    · exact h.own pid' p' hp' hmine'
  foreign := by
    intro pid' p' hp' hmine'
    simp only [Pool.setProcess, Function.update_apply] at hp'
    split at hp'
    · cases hp'
      rw [hmine] at hmine'
      contradiction
    · exact h.foreign pid' p' hp' hmine'
  nodup := h.nodup
  finished := by
    intro d hd
    obtain ⟨p, hp', hrest⟩ := h.finished d hd
    have hne : d.pid ≠ pid := fun heq => by rw [heq, hp] at hp'; contradiction
    exact ⟨p, by simp only [Pool.setProcess, Function.update_of_ne hne, hp'], hrest⟩
  accounted := by
    intro pid' p' hp' hmine'
    simp only [Pool.setProcess, Function.update_apply] at hp'
    split at hp'
    · next heq => exact .inr (by rw [heq])
    · exact .inl ((h.accounted pid' p' hp' hmine').resolve_right (by simp))
  idle := fun hnone => by simp at hnone
  busy := by
    intro pid' hpid'
    cases hpid'
    refine ⟨fun hmem => ?_, _, Pool.setProcess_procs_self P pid _, hmine, fun a t' ha => ?_⟩
    · obtain ⟨d, hd, rfl⟩ := List.mem_map.mp hmem
      obtain ⟨p, hp', -⟩ := h.finished d hd
      rw [hp] at hp'
      contradiction
    · exact hdecided t a t' ha

/-- The program under way goes on, and the serial machine with it. -/
theorem Follows.turn {pid : Nat} (h : V.Follows envs s₀ P done s t (some pid))
    {p : Process Op Reply κ α ρ} (hp : P.procs pid = some p) (log : Program.Log Op Reply)
    {rest : Program Op Reply κ α} (hconfined : rest.Confined V.own V.near) {s₁ t₁ : σ}
    (hagree : V.Agree s₁ t₁)
    (hout : ∀ a t', rest.Alone (M.exec (envs pid)) t₁ a t' →
      p.rest.Alone (M.exec (envs pid)) t a t') (held : κ → Bool)
        (trace : List (Event Op Reply ρ σ)) :
    V.Follows envs s₀
      { P.setProcess pid ⟨p.tag, log, rest⟩ with shared := s₁, held := held, trace := trace }
      done s t₁ (some pid) where
  serially := h.serially
  agree := hagree
  own := by
    intro pid' p' hp' hmine'
    simp only [Pool.setProcess, Function.update_apply] at hp'
    split at hp'
    · cases hp'
      exact hconfined
    · exact h.own pid' p' hp' hmine'
  foreign := by
    intro pid' p' hp' hmine'
    simp only [Pool.setProcess, Function.update_apply] at hp'
    split at hp'
    · obtain ⟨-, p'', hp'', hmine, -⟩ := h.busy pid rfl
      rw [hp, Option.some.injEq] at hp''
      rw [← hp''] at hmine
      cases hp'
      rw [hmine] at hmine'
      contradiction
    · exact h.foreign pid' p' hp' hmine'
  nodup := h.nodup
  finished := by
    intro d hd
    obtain ⟨p', hp', hrest⟩ := h.finished d hd
    have hne : d.pid ≠ pid := by
      intro heq
      exact (h.busy pid rfl).1 (heq ▸ List.mem_map_of_mem hd)
    exact ⟨p', by simp only [Pool.setProcess, Function.update_of_ne hne, hp'], hrest⟩
  accounted := by
    intro pid' p' hp' hmine'
    simp only [Pool.setProcess, Function.update_apply] at hp'
    split at hp'
    · next heq => exact .inr (by rw [heq])
    · exact h.accounted pid' p' hp' hmine'
  idle := fun hnone => by simp at hnone
  busy := by
    intro pid' hpid'
    cases hpid'
    obtain ⟨hnew, p', hp', hmine, houtcome⟩ := h.busy pid rfl
    rw [hp, Option.some.injEq] at hp'
    subst hp'
    refine ⟨hnew, ⟨p.tag, log, rest⟩, Pool.setProcess_procs_self P pid _, hmine,
      fun a t' ha => ?_⟩
    exact houtcome a t' (hout a t' ha)

/-- The observer does not notice what the other programs do. -/
theorem Follows.elsewhere (h : V.Follows envs s₀ P done s t current) {pid : Nat}
    (hother : ∀ p, P.procs pid = some p → V.mine p.tag = false) {tag : ρ}
    (hmine : V.mine tag = false) (log : Program.Log Op Reply) {rest : Program Op Reply κ α}
    (hconfined : rest.Confined V.foreign V.far) {s₁ : σ} (hagree : V.Agree s₁ t)
    (held : κ → Bool) (trace : List (Event Op Reply ρ σ)) :
    V.Follows envs s₀
      { P.setProcess pid ⟨tag, log, rest⟩ with shared := s₁, held := held, trace := trace }
      done s t current where
  serially := h.serially
  agree := hagree
  own := by
    intro pid' p' hp' hmine'
    simp only [Pool.setProcess, Function.update_apply] at hp'
    split at hp'
    · cases hp'
      rw [hmine] at hmine'
      contradiction
    · exact h.own pid' p' hp' hmine'
  foreign := by
    intro pid' p' hp' hmine'
    simp only [Pool.setProcess, Function.update_apply] at hp'
    split at hp'
    · cases hp'
      exact hconfined
    · exact h.foreign pid' p' hp' hmine'
  nodup := h.nodup
  finished := by
    intro d hd
    obtain ⟨p, hp, htag, hrest, hmine'⟩ := h.finished d hd
    have hne : d.pid ≠ pid := by
      intro heq
      have hfalse := hother p (heq ▸ hp)
      rw [htag, hmine'] at hfalse
      contradiction
    exact ⟨p,
      by simp only [Pool.setProcess, Function.update_of_ne hne, hp], htag, hrest, hmine'⟩
  accounted := by
    intro pid' p' hp' hmine'
    simp only [Pool.setProcess, Function.update_apply] at hp'
    split at hp'
    · cases hp'
      rw [hmine] at hmine'
      contradiction
    · exact h.accounted pid' p' hp' hmine'
  idle := h.idle
  busy := by
    intro pid' hpid'
    obtain ⟨hnew, p, hp, hmine', houtcome⟩ := h.busy pid' hpid'
    have hne : pid' ≠ pid := by
      intro heq
      have hfalse := hother p (heq ▸ hp)
      rw [hmine'] at hfalse
      contradiction
    exact ⟨hnew, p,
      by simp only [Pool.setProcess, Function.update_of_ne hne, hp], hmine', houtcome⟩

/-- Who is over is not under way. -/
theorem not_busy (hfinished : ∀ d ∈ done, ∃ p, P.procs d.pid = some p ∧ p.tag = d.tag ∧
    p.rest = .ret d.result) (harrived : ∀ pid p, P.procs pid = some p →
      ∃ d ∈ done, d.pid = pid) :
    ¬ V.Busy P := by
  rintro ⟨pid, p, hp, -, hret⟩
  obtain ⟨d, hd, rfl⟩ := harrived pid p hp
  obtain ⟨p', hp', -, hrest⟩ := hfinished d hd
  rw [hp, Option.some.injEq] at hp'
  exact hret d.result (hp' ▸ hrest)

variable [DecidableEq κ]

/-- A program the observer sees makes a step: it is the one under way. -/
theorem Follows.advance (h : V.Follows envs s₀ P done s t current) {pid : Nat} {choice : Bool}
    {p : Process Op Reply κ α ρ} (hp : P.procs pid = some p) (hmine : V.mine p.tag = true)
    (hlock : ∀ key next, p.rest = .acquire key next → choice = true)
    (hs : P.advance (M.exec (envs pid)) pid choice = some P') :
    ∃ t', V.Follows envs s₀ P' done s t' current := by
  have hcurrent : current = some pid := by
    refine (h.accounted pid p hp hmine).resolve_left fun hmem => ?_
    obtain ⟨d, hd, rfl⟩ := List.mem_map.mp hmem
    obtain ⟨p', hp', -, hret, -⟩ := h.finished d hd
    rw [hp, Option.some.injEq] at hp'
    simp [Pool.advance, hp, hp', hret] at hs
  subst hcurrent
  have hconfined := h.own pid p hp hmine
  simp only [Pool.advance, hp] at hs
  cases hr : p.rest with
  | ret a => simp only [hr] at hs; contradiction
  | call op next =>
      rw [hr] at hconfined
      simp only [hr, Option.some.injEq] at hs
      obtain ⟨hreply, hagree⟩ := V.exec_own (envs pid) op P.shared t hconfined.1 h.agree
      subst hs
      refine ⟨(M.exec (envs pid) op t).2, h.turn hp _ (hconfined.2 _) hagree ?_ _ _⟩
      intro a t' ha
      rw [hr, Program.Alone, ← hreply]
      exact ha
  | acquire key next =>
      rw [hr] at hconfined
      have hchoice : choice = true := hlock key next hr
      simp only [hr, hchoice, if_true] at hs
      split at hs
      · contradiction
      · rw [← Option.some.inj hs]
        exact ⟨t, h.turn hp _ (hconfined.2 true) h.agree
          (fun a t' ha => by rw [hr]; exact ha) _ _⟩
  | release key next =>
      rw [hr] at hconfined
      simp only [hr, Option.some.injEq] at hs
      subst hs
      exact ⟨t, h.turn hp _ hconfined.2 h.agree (fun a t' ha => by rw [hr]; exact ha) _ _⟩
  | either l r =>
      rw [hr] at hconfined
      simp only [hr, Option.some.injEq] at hs
      subst hs
      cases choice with
      | true =>
          exact ⟨t, h.turn hp _ hconfined.1 h.agree
            (fun a t' ha => by rw [hr]; exact .inl ha) _ _⟩
      | false =>
          exact ⟨t, h.turn hp _ hconfined.2 h.agree
            (fun a t' ha => by rw [hr]; exact .inr ha) _ _⟩

/-- A program the observer does not see makes a step. -/
theorem Follows.advance_elsewhere (h : V.Follows envs s₀ P done s t current) {pid : Nat}
    {choice : Bool} {env : ε} {p : Process Op Reply κ α ρ} (hp : P.procs pid = some p)
    (hmine : V.mine p.tag = false) (hs : P.advance (M.exec env) pid choice = some P') :
    V.Follows envs s₀ P' done s t current := by
  have hother : ∀ p', P.procs pid = some p' → V.mine p'.tag = false := by
    intro p' hp'
    rw [hp, Option.some.injEq] at hp'
    rw [← hp', hmine]
  have hconfined := h.foreign pid p hp hmine
  simp only [Pool.advance, hp] at hs
  cases hr : p.rest with
  | ret a => simp only [hr] at hs; contradiction
  | call op next =>
      rw [hr] at hconfined
      simp only [hr, Option.some.injEq] at hs
      subst hs
      exact h.elsewhere hother hmine _ (hconfined.2 _)
        (V.exec_foreign env op _ _ hconfined.1 h.agree) _ _
  | acquire key next =>
      rw [hr] at hconfined
      simp only [hr] at hs
      split at hs
      · split at hs
        · contradiction
        · rw [← Option.some.inj hs]
          exact h.elsewhere hother hmine _ (hconfined.2 true) h.agree _ _
      · rw [← Option.some.inj hs]
        exact h.elsewhere hother hmine _ (hconfined.2 false) h.agree _ _
  | release key next =>
      rw [hr] at hconfined
      simp only [hr, Option.some.injEq] at hs
      subst hs
      exact h.elsewhere hother hmine _ hconfined.2 h.agree _ _
  | either l r =>
      rw [hr] at hconfined
      simp only [hr, Option.some.injEq] at hs
      subst hs
      refine h.elsewhere hother hmine _ ?_ h.agree _ _
      cases choice with
      | true => exact hconfined.1
      | false => exact hconfined.2

/-- **Every step keeps the observer's programs on a serial run.** -/
theorem Serial.step
    (hdecided : ∀ pid tag, V.mine tag = true → (M.program tag).Decided (M.exec (envs pid)))
    (h : V.Serial envs s₀ P) {l : Pool.Label ρ ε δ} (hok : V.OneAtATime envs P l)
    (hs : Pool.step M P l = some P') : V.Serial envs s₀ P' := by
  obtain ⟨done, s, t, current, h⟩ := h
  cases l with
  | arrive pid tag =>
      cases hp : P.procs pid with
      | some p => simp [Pool.step, hp] at hs
      | none =>
          rw [Pool.step_arrive hp, Option.some.injEq] at hs
          subst hs
          cases hmine : V.mine tag with
          | true =>
              obtain ⟨done', h'⟩ := h.settle (hok hmine)
              exact ⟨done', t, t, some pid, h'.arrive hp hmine (hdecided pid tag hmine)⟩
          | false =>
              refine ⟨done, s, t, current, h.elsewhere (fun p hp' => ?_) hmine []
                (V.confined_foreign tag hmine) h.agree P.held P.trace⟩
              rw [hp] at hp'
              contradiction
  | advance pid choice env =>
      cases hp : P.procs pid with
      | none => simp [Pool.step, Pool.advance, hp] at hs
      | some p =>
          cases hmine : V.mine p.tag with
          | true =>
              obtain ⟨henv, hlock⟩ := hok p hp hmine
              subst henv
              obtain ⟨t', h'⟩ := h.advance hp hmine hlock hs
              exact ⟨done, s, t', current, h'⟩
          | false => exact ⟨done, s, t, current, h.advance_elsewhere hp hmine hs⟩
  | drift d =>
      rw [Pool.step, Option.map_eq_some_iff] at hs
      obtain ⟨s₁, hd, rfl⟩ := hs
      cases hseen : V.seen d with
      | true =>
          obtain ⟨done', h'⟩ := h.settle (hok hseen)
          obtain ⟨t₁, hd', ht₁⟩ := V.drift_seen d _ _ s₁ hseen h'.agree hd
          exact ⟨done', t₁, t₁, none, { h' with
            serially := h'.serially.drift hseen hd', agree := ht₁, idle := fun _ => rfl,
            busy := fun _ hsome => by simp at hsome }⟩
      | false =>
          exact ⟨done, s, t, current, { h with
            agree := V.drift_unseen d _ _ s₁ hseen h.agree hd }⟩

/-- **An observer whose programs do not overlap sees a serial run**: with none of
them under way, they are exactly the programs of such a run, they came to what
they came to there, and the state looks like the one reached there. -/
theorem serial_run
    (hdecided : ∀ pid tag, V.mine tag = true → (M.program tag).Decided (M.exec (envs pid)))
    (hrefl : V.Agree s₀ s₀)
    (hr : Reachable (Pool.step M) (V.OneAtATime envs) (fun P => P = Pool.start s₀) P)
    (hidle : ¬ V.Busy P) :
    ∃ done t, Serially M envs V.mine V.seen s₀ done t ∧ V.Agree P.shared t ∧
      (done.map Done.pid).Nodup ∧
      (∀ d ∈ done, ∃ p, P.procs d.pid = some p ∧ p.tag = d.tag ∧ p.rest = .ret d.result) ∧
      ∀ pid p, P.procs pid = some p → V.mine p.tag = true → ∃ d ∈ done, d.pid = pid := by
  have hserial : V.Serial envs s₀ P := by
    refine hr.invariant (V.Serial envs s₀) ?_ fun P l P' h hok hs => h.step hdecided hok hs
    rintro _ rfl
    exact ⟨[], s₀, s₀, none, .start hrefl⟩
  obtain ⟨done, s, t, current, h⟩ := hserial
  obtain ⟨done', h'⟩ := h.settle hidle
  refine ⟨done', t, h'.serially, h'.agree, h'.nodup, fun d hd => ?_, fun pid p hp hmine => ?_⟩
  · obtain ⟨p, hp, htag, hrest, -⟩ := h'.finished d hd
    exact ⟨p, hp, htag, hrest⟩
  · have hmem := (h'.accounted pid p hp hmine).resolve_right (by simp)
    obtain ⟨d, hd, heq⟩ := List.mem_map.mp hmem
    exact ⟨d, hd, heq⟩

/-- A process left to itself, with all locks but its own free, comes to what its
program comes to in isolation. -/
theorem exists_alone_run {pid : Nat} {env : ε}
    {ok : Pool Op Reply κ α ρ σ → Pool.Label ρ ε δ → Prop}
    (hok : ∀ Q, ok Q (.advance pid true env)) (tag : ρ) {rest : Program Op Reply κ α}
    {held : Option κ} (hlocks : rest.Locks held) (log : Program.Log Op Reply)
    (hp : P.procs pid = some ⟨tag, log, rest⟩)
    (hheld : ∀ key, P.held key = true ↔ held = some key) :
    ∃ P' log', Reachable (Pool.step M) ok (· = P) P' ∧
      P'.shared = (rest.isolated (M.exec env) P.shared).2 ∧
      P'.procs = Function.update P.procs pid
        (some ⟨tag, log', .ret (rest.isolated (M.exec env) P.shared).1⟩) ∧
      ∀ key, P'.held key = false := by
  induction rest generalizing P held log with
  | ret a =>
      have hnone : held = none := hlocks
      refine ⟨P, log, .start rfl, rfl, ?_, fun key => ?_⟩
      · rw [Program.isolated_ret, ← hp, Function.update_eq_self]
      · rw [← Bool.not_eq_true, hheld key, hnone]
        simp
  | call op next ih =>
      have hs : P.advance (M.exec env) pid true =
          some (P.perform pid ⟨tag, log, .call op next⟩ op next (M.exec env op P.shared)) := by
        simp [Pool.advance, hp]
      obtain ⟨P', log', hr, hshared, hprocs, hfree⟩ := ih (M.exec env op P.shared).1 (hlocks _)
        (⟨op, (M.exec env op P.shared).1⟩ :: log)
        (P := P.perform pid ⟨tag, log, .call op next⟩ op next (M.exec env op P.shared))
        (Pool.perform_procs_self P pid _ op next (M.exec env op P.shared)) hheld
      refine ⟨P', log', hr.head (hok P) hs, hshared, ?_, hfree⟩
      rw [hprocs]
      simp [Pool.perform, Pool.setProcess]
  | acquire key next ih =>
      obtain ⟨hnone, htrue, -⟩ := hlocks
      have hfree : P.held key = false := by
        rw [← Bool.not_eq_true, hheld key, hnone]
        simp
      have hs : P.advance (M.exec env) pid true =
          some { P.setProcess pid ⟨tag, log, next true⟩ with
            held := Function.update P.held key true } := by
        simp [Pool.advance, hp, hfree]
      obtain ⟨P', log', hr, hshared, hprocs, hfree⟩ := ih true htrue log
        (P := { P.setProcess pid ⟨tag, log, next true⟩ with
          held := Function.update P.held key true }) (Pool.setProcess_procs_self P pid _)
        (fun key' => by
          simp only [Function.update_apply]
          split
          · next heq => simp [heq]
          · next hne =>
              rw [hheld key', hnone]
              simpa using Ne.symm hne)
      refine ⟨P', log', hr.head (hok P) hs, hshared, ?_, hfree⟩
      rw [hprocs]
      simp [Pool.setProcess]
  | release key next ih =>
      obtain ⟨hkey, hnext⟩ := hlocks
      have hs : P.advance (M.exec env) pid true =
          some { P.setProcess pid ⟨tag, log, next⟩ with
            held := Function.update P.held key false } := by
        simp [Pool.advance, hp]
      obtain ⟨P', log', hr, hshared, hprocs, hfree⟩ := ih hnext log
        (P := { P.setProcess pid ⟨tag, log, next⟩ with
          held := Function.update P.held key false }) (Pool.setProcess_procs_self P pid _)
        (fun key' => by
          simp only [Function.update_apply]
          split
          · simp
          · next hne =>
              rw [hheld key', hkey, Option.some.injEq]
              simpa using Ne.symm hne)
      refine ⟨P', log', hr.head (hok P) hs, hshared, ?_, hfree⟩
      rw [hprocs]
      simp [Pool.setProcess]
  | either l r ihl ihr =>
      have hs : P.advance (M.exec env) pid true = some (P.setProcess pid ⟨tag, log, l⟩) := by
        simp [Pool.advance, hp]
      obtain ⟨P', log', hr, hshared, hprocs, hfree⟩ := ihl hlocks.1 log
        (P := P.setProcess pid ⟨tag, log, l⟩) (Pool.setProcess_procs_self P pid _) hheld
      refine ⟨P', log', hr.head (hok P) hs, hshared, ?_, hfree⟩
      rw [hprocs]
      simp [Pool.setProcess]

/-- **Every serial run is a run of the pool**, in which the programs do not
overlap, and come to what they came to there. -/
theorem exists_run (hlocks : ∀ tag, (M.program tag).Locks none)
    (h : Serially M envs V.mine V.seen s₀ done s) (hnodup : (done.map Done.pid).Nodup) :
    ∃ P, Reachable (Pool.step M) (V.OneAtATime envs) (· = Pool.start s₀) P ∧ P.shared = s ∧
      (∀ key, P.held key = false) ∧
      (∀ d ∈ done, ∃ p, P.procs d.pid = some p ∧ p.tag = d.tag ∧ p.rest = .ret d.result) ∧
      ∀ pid p, P.procs pid = some p → ∃ d ∈ done, d.pid = pid := by
  induction h with
  | start =>
      refine ⟨Pool.start s₀, .start rfl, rfl, fun _ => rfl, by simp, fun pid p hp => ?_⟩
      simp [Pool.start] at hp
  | @handle done s _ pid tag hmine ih =>
      rw [List.map_cons, List.nodup_cons] at hnodup
      have hnew : pid ∉ done.map Done.pid := hnodup.1
      obtain ⟨P, hr, rfl, hfree, hfinished, harrived⟩ := ih hnodup.2
      have hnone : P.procs pid = none := by
        cases hp : P.procs pid with
        | none => rfl
        | some p =>
            obtain ⟨d, hd, rfl⟩ := harrived pid p hp
            exact absurd (List.mem_map_of_mem hd) hnew
      have hidle : ¬ V.Busy P := not_busy hfinished harrived
      have hturns : ∀ Q, V.OneAtATime envs Q (.advance pid true (envs pid)) :=
        fun Q p _ _ => ⟨rfl, fun _ _ _ => rfl⟩
      obtain ⟨P', log', hr', hshared, hprocs, hfree'⟩ := exists_alone_run (M := M)
        (P := P.setProcess pid { tag := tag, log := [], rest := M.program tag }) hturns tag
        (hlocks tag) [] (Pool.setProcess_procs_self P pid _) (fun key => by
          rw [show (P.setProcess pid _).held key = false from hfree key]
          simp)
      refine ⟨P', hr.trans (hr'.head (fun _ => hidle) (Pool.step_arrive hnone tag)),
        hshared, hfree', fun d hd => ?_, fun pid' p hp => ?_⟩
      · rw [hprocs]
        rcases List.mem_cons.mp hd with rfl | hd
        · exact ⟨_, Function.update_self .., rfl, rfl⟩
        · have hmem : d.pid ∈ done.map Done.pid := List.mem_map_of_mem hd
          have hne : d.pid ≠ pid := fun heq => hnew (heq ▸ hmem)
          obtain ⟨p, hp, hrest⟩ := hfinished d hd
          exact ⟨p, by simp only [Function.update_of_ne hne, Pool.setProcess, hp], hrest⟩
      · simp only [hprocs, Pool.setProcess, Function.update_apply] at hp
        split at hp
        · next heq => exact ⟨_, List.mem_cons_self, heq.symm⟩
        · obtain ⟨d, hd, heq⟩ := harrived pid' p hp
          exact ⟨d, List.mem_cons_of_mem _ hd, heq⟩
  | @drift done s s' _ d hseen hd ih =>
      obtain ⟨P, hr, rfl, hfree, hfinished, harrived⟩ := ih hnodup
      have hidle : ¬ V.Busy P := not_busy hfinished harrived
      refine ⟨{ P with shared := s' }, .step (l := .drift d) hr (fun _ => hidle) ?_, rfl, hfree,
        hfinished, harrived⟩
      rw [Pool.step, hd, Option.map_some]

end View

end Library
