import IdempotentTransformer.Library.Pool

/-!
# IdempotentTransformer.Library.Confinement

Non-interference between programs that share a state.

`Program.Confined` bounds the calls and the locks of a program, whatever the
replies.  A `View` says which programs an observer sees, what two shared
states have in common for it, and that the programs it sees act on that part
alone and the others on the rest (the unwinding conditions).  `Pool.hide`
takes the unseen programs out of a run; `View.hidden_run` says that what is
left is a run, and that the observer cannot tell it from the full one.
-/

namespace Library

namespace Program

variable {Op : Type} {Reply : Op → Type} {κ α β γ : Type}

/-- All calls meet `C` and all locks meet `K`. -/
def Confined (C : Op → Prop) (K : κ → Prop) : Program Op Reply κ α → Prop
  | .ret _ => True
  | .call op next => C op ∧ ∀ r, Confined C K (next r)
  | .acquire key next => K key ∧ ∀ b, Confined C K (next b)
  | .release key next => K key ∧ Confined C K next
  | .either l r => Confined C K l ∧ Confined C K r

section Confined

variable {C C' : Op → Prop} {K K' : κ → Prop}

theorem Confined.mono {p : Program Op Reply κ α} (h : Confined C K p) (hC : ∀ op, C op → C' op)
    (hK : ∀ key, K key → K' key) : Confined C' K' p := by
  induction p with
  | ret a => trivial
  | call op next ih => exact ⟨hC op h.1, fun r => ih r (h.2 r)⟩
  | acquire key next ih => exact ⟨hK key h.1, fun b => ih b (h.2 b)⟩
  | release key next ih => exact ⟨hK key h.1, ih h.2⟩
  | either l r ihl ihr => exact ⟨ihl h.1, ihr h.2⟩

/-- The rule for sequential composition. -/
theorem confined_bind {p : Program Op Reply κ α} {f : α → Program Op Reply κ β}
    (hp : Confined C K p) (hf : ∀ a, Confined C K (f a)) : Confined C K (p.bind f) := by
  induction p with
  | ret a => exact hf a
  | call op next ih => exact ⟨hp.1, fun r => ih r (hp.2 r)⟩
  | acquire key next ih => exact ⟨hp.1, fun b => ih b (hp.2 b)⟩
  | release key next ih => exact ⟨hp.1, ih hp.2⟩
  | either l r ihl ihr => exact ⟨ihl hp.1, ihr hp.2⟩

theorem confined_interleave {partner : Program Op Reply κ β → Program Op Reply κ γ}
    (hpartner : ∀ q, Confined C K q → Confined C K (partner q)) {q : Program Op Reply κ β}
    (hq : Confined C K q) : Confined C K (interleave partner q) := by
  induction q with
  | ret b => exact hpartner _ hq
  | call op next ih => exact ⟨hpartner _ hq, hq.1, fun r => ih r (hq.2 r)⟩
  | acquire key next ih => exact ⟨hpartner _ hq, hq.1, fun b => ih b (hq.2 b)⟩
  | release key next ih => exact ⟨hpartner _ hq, hq.1, ih hq.2⟩
  | either l r ihl ihr => exact ⟨ihl hq.1, ihr hq.2⟩

/-- The rule for concurrent composition. -/
theorem confined_join {p : Program Op Reply κ α} {q : Program Op Reply κ β}
    (hp : Confined C K p) (hq : Confined C K q) : Confined C K (join p q) := by
  induction p generalizing q with
  | ret a => exact confined_bind hq fun _ => trivial
  | call op next ih =>
      rw [join]
      refine confined_interleave (fun q hq => ?_) hq
      exact ⟨hp.1, fun r => ih r (hp.2 r) hq⟩
  | acquire key next ih =>
      rw [join]
      refine confined_interleave (fun q hq => ?_) hq
      exact ⟨hp.1, fun b => ih b (hp.2 b) hq⟩
  | release key next ih =>
      rw [join]
      refine confined_interleave (fun q hq => ?_) hq
      exact ⟨hp.1, ih hp.2 hq⟩
  | either l r ihl ihr => exact ⟨ihl hp.1 hq, ihr hp.2 hq⟩

/-- A confined program keeps to its bounds as a discipline. -/
theorem Confined.obeys {p : Program Op Reply κ α} (h : Confined C K p) (log : Log Op Reply) :
    Obeys (fun _ => C) (fun _ _ => True) log p := by
  induction p generalizing log with
  | ret a => trivial
  | call op next ih => exact ⟨h.1, fun r => ih r (h.2 r) _⟩
  | acquire key next ih => exact fun b => ih b (h.2 b) log
  | release key next ih => exact ih h.2 log
  | either l r ihl ihr => exact ⟨ihl h.1 log, ihr h.2 log⟩

end Confined

end Program

/-! ## Taking programs out of a run -/

/-- The labels of a run without those of the programs whose tag is not
`mine`, and without the drifts that are not `seen`.  `hidden` are the
identifiers such programs have. -/
def Pool.hide {ρ ε δ : Type} (mine : ρ → Bool) (seen : δ → Bool) :
    (Nat → Bool) → List (Pool.Label ρ ε δ) → List (Pool.Label ρ ε δ)
  | _, [] => []
  | hidden, .arrive pid tag :: ls =>
      if mine tag then .arrive pid tag :: hide mine seen hidden ls
      else hide mine seen (Function.update hidden pid true) ls
  | hidden, .advance pid choice env :: ls =>
      if hidden pid then hide mine seen hidden ls
      else .advance pid choice env :: hide mine seen hidden ls
  | hidden, .drift d :: ls =>
      if seen d then .drift d :: hide mine seen hidden ls else hide mine seen hidden ls

/-! ## Views -/

/-- What an observer of a machine sees, with the unwinding conditions. -/
structure View {Op : Type} {Reply : Op → Type} {κ α ρ σ ε δ : Type}
    (M : Machine Op Reply κ α ρ σ ε δ) where
  /-- The programs it sees. -/
  mine : ρ → Bool
  /-- The drifts it sees. -/
  seen : δ → Bool
  /-- What the programs it sees may call and lock. -/
  own : Op → Prop
  near : κ → Prop
  /-- What the others may call and lock. -/
  foreign : Op → Prop
  far : κ → Prop
  /-- The states look the same. -/
  Agree : σ → σ → Prop
  near_far : ∀ key, near key → ¬ far key
  confined_own : ∀ tag, mine tag = true → (M.program tag).Confined own near
  confined_foreign : ∀ tag, mine tag = false → (M.program tag).Confined foreign far
  /-- Its programs get the same replies, and leave the same. -/
  exec_own : ∀ env op s s', own op → Agree s s' → (M.exec env op s).1 = (M.exec env op s').1 ∧
    Agree (M.exec env op s).2 (M.exec env op s').2
  /-- The others leave nothing it sees. -/
  exec_foreign : ∀ env op s s', foreign op → Agree s s' → Agree (M.exec env op s).2 s'
  drift_seen : ∀ d s s' t, seen d = true → Agree s s' → M.drift d s = some t →
    ∃ t', M.drift d s' = some t' ∧ Agree t t'
  drift_unseen : ∀ d s s' t, seen d = false → Agree s s' → M.drift d s = some t → Agree t s'

namespace View

variable {Op : Type} {Reply : Op → Type} {κ α ρ σ ε δ : Type}
  {M : Machine Op Reply κ α ρ σ ε δ} (V : View M)

/-- The full pool and the one without the hidden programs. -/
structure Matches (hidden : Nat → Bool) (P P' : Pool Op Reply κ α ρ σ) : Prop where
  shared : V.Agree P.shared P'.shared
  held : ∀ key, V.near key → P'.held key = P.held key
  same : ∀ pid, hidden pid = false → P'.procs pid = P.procs pid
  mine : ∀ pid p, hidden pid = false → P.procs pid = some p →
    V.mine p.tag = true ∧ p.rest.Confined V.own V.near
  others : ∀ pid, hidden pid = true → P'.procs pid = none ∧
    ∃ p, P.procs pid = some p ∧ V.mine p.tag = false ∧ p.rest.Confined V.foreign V.far

namespace Matches

variable {V} {hidden : Nat → Bool} {P P' : Pool Op Reply κ α ρ σ}

theorem start {s s' : σ} (h : V.Agree s s') :
    V.Matches (fun _ => false) (Pool.start s) (Pool.start s') where
  shared := h
  held := fun _ _ => rfl
  same := fun _ _ => rfl
  mine := fun _ _ _ hp => by simp [Pool.start] at hp
  others := fun _ h => by simp at h

/-- A step of a program both pools have. -/
theorem setBoth (h : V.Matches hidden P P') {pid : Nat} (hpid : hidden pid = false)
    {tag : ρ} (hmine : V.mine tag = true) {rest : Program Op Reply κ α}
    (hconfined : rest.Confined V.own V.near) (log : Program.Log Op Reply) {s s' : σ}
    (hs : V.Agree s s') {held held' : κ → Bool}
    (hheld : ∀ key, V.near key → held' key = held key)
    (trace trace' : List (Event Op Reply ρ σ)) :
    V.Matches hidden
      { P.setProcess pid ⟨tag, log, rest⟩ with shared := s, held := held, trace := trace }
      { P'.setProcess pid ⟨tag, log, rest⟩ with
        shared := s', held := held', trace := trace' } where
  shared := hs
  held := hheld
  same := by
    intro pid' hp'
    simp only [Pool.setProcess, Function.update_apply]
    split
    · rfl
    · exact h.same pid' hp'
  mine := by
    intro pid' p' hp' hproc
    simp only [Pool.setProcess, Function.update_apply] at hproc
    split at hproc
    · cases hproc
      exact ⟨hmine, hconfined⟩
    · exact h.mine pid' p' hp' hproc
  others := by
    intro pid' hp'
    simp only [Pool.setProcess, Function.update_apply]
    split
    · next heq =>
        rw [heq, hpid] at hp'
        contradiction
    · exact h.others pid' hp'

/-- A step of a program only the full pool has. -/
theorem setHidden (h : V.Matches hidden P P') {pid : Nat}
    (hnone : P'.procs pid = none) {tag : ρ} (hmine : V.mine tag = false)
    {rest : Program Op Reply κ α} (hconfined : rest.Confined V.foreign V.far)
    (log : Program.Log Op Reply) {s : σ} (hs : V.Agree s P'.shared) {held : κ → Bool}
    (hheld : ∀ key, V.near key → P'.held key = held key) (trace : List (Event Op Reply ρ σ)) :
    V.Matches (Function.update hidden pid true)
      { P.setProcess pid ⟨tag, log, rest⟩ with
        shared := s, held := held, trace := trace } P' where
  shared := hs
  held := hheld
  same := by
    intro pid' hp'
    simp only [Function.update_apply] at hp'
    simp only [Pool.setProcess, Function.update_apply]
    split at hp'
    · contradiction
    · next hne =>
        rw [if_neg hne]
        exact h.same pid' hp'
  mine := by
    intro pid' p' hp' hproc
    simp only [Function.update_apply] at hp'
    simp only [Pool.setProcess, Function.update_apply] at hproc
    split at hp'
    · contradiction
    · next hne =>
        rw [if_neg hne] at hproc
        exact h.mine pid' p' hp' hproc
  others := by
    intro pid' hp'
    simp only [Function.update_apply] at hp'
    simp only [Pool.setProcess, Function.update_apply]
    split at hp'
    · next heq =>
        subst heq
        exact ⟨hnone, _, if_pos rfl, hmine, hconfined⟩
    · next hne =>
        rw [if_neg hne]
        exact h.others pid' hp'

/-- A program only the full pool has goes on as one of the others. -/
theorem setOther (h : V.Matches hidden P P') {pid : Nat} (hpid : hidden pid = true) {tag : ρ}
    (hmine : V.mine tag = false) {rest : Program Op Reply κ α}
    (hconfined : rest.Confined V.foreign V.far) (log : Program.Log Op Reply) {s : σ}
    (hs : V.Agree s P'.shared) {held : κ → Bool}
    (hheld : ∀ key, V.near key → P'.held key = held key) (trace : List (Event Op Reply ρ σ)) :
    V.Matches hidden
      { P.setProcess pid ⟨tag, log, rest⟩ with
        shared := s, held := held, trace := trace } P' := by
  have hset := h.setHidden (h.others pid hpid).1 hmine hconfined log hs hheld trace
  have hsame : Function.update hidden pid true = hidden := by
    rw [← hpid, Function.update_eq_self]
  rw [hsame] at hset
  exact hset

variable [DecidableEq κ]

/-- A program both pools have makes the same step in both. -/
theorem advance (h : V.Matches hidden P P') {pid : Nat} (hpid : hidden pid = false)
    {choice : Bool} {env : ε} {Q : Pool Op Reply κ α ρ σ}
    (hs : P.advance (M.exec env) pid choice = some Q) :
    ∃ Q', P'.advance (M.exec env) pid choice = some Q' ∧ V.Matches hidden Q Q' := by
  unfold Pool.advance at hs ⊢
  rw [h.same pid hpid]
  cases hp : P.procs pid with
  | none => simp only [hp] at hs; contradiction
  | some p =>
      obtain ⟨hmine, hconfined⟩ := h.mine pid p hpid hp
      obtain ⟨tag, log, rest⟩ := p
      simp only [hp] at hs
      cases rest with
      | ret a => contradiction
      | call op next =>
          obtain ⟨hreply, hagree⟩ := V.exec_own env op P.shared P'.shared hconfined.1 h.shared
          refine ⟨_, rfl, ?_⟩
          rw [← Option.some.inj hs]
          simp only [Pool.perform, ← hreply]
          exact h.setBoth hpid hmine (hconfined.2 _) _ hagree h.held _ _
      | acquire key next =>
          cases choice with
          | false =>
              refine ⟨_, rfl, ?_⟩
              rw [← Option.some.inj hs]
              exact h.setBoth hpid hmine (hconfined.2 false) _ h.shared h.held _ _
          | true =>
              simp only [if_true] at hs ⊢
              rw [h.held key hconfined.1]
              split at hs
              · contradiction
              · next hfree =>
                  rw [if_neg hfree]
                  refine ⟨_, rfl, ?_⟩
                  rw [← Option.some.inj hs]
                  refine h.setBoth hpid hmine (hconfined.2 true) _ h.shared
                    (fun key' hnear => ?_) _ _
                  simp only [Function.update_apply, h.held key' hnear]
      | release key next =>
          refine ⟨_, rfl, ?_⟩
          rw [← Option.some.inj hs]
          refine h.setBoth hpid hmine hconfined.2 _ h.shared (fun key' hnear => ?_) _ _
          simp only [Function.update_apply, h.held key' hnear]
      | either l r =>
          refine ⟨_, rfl, ?_⟩
          rw [← Option.some.inj hs]
          refine h.setBoth hpid hmine ?_ _ h.shared h.held _ _
          cases choice with
          | true => exact hconfined.1
          | false => exact hconfined.2

/-- The observer sees nothing of the step of a program only the full pool
has. -/
theorem advance_hidden (h : V.Matches hidden P P') {pid : Nat} (hpid : hidden pid = true)
    {choice : Bool} {env : ε} {Q : Pool Op Reply κ α ρ σ}
    (hs : P.advance (M.exec env) pid choice = some Q) : V.Matches hidden Q P' := by
  obtain ⟨-, p, hp, hmine, hconfined⟩ := h.others pid hpid
  have hfar : ∀ {key}, V.far key → ∀ (held : Bool) key', V.near key' →
      P'.held key' = Function.update P.held key held key' := by
    intro key hkey held key' hnear
    have hne : key' ≠ key := fun heq => V.near_far key' hnear (heq ▸ hkey)
    rw [Function.update_of_ne hne, h.held key' hnear]
  unfold Pool.advance at hs
  obtain ⟨tag, log, rest⟩ := p
  simp only [hp] at hs
  cases rest with
  | ret a => contradiction
  | call op next =>
      rw [← Option.some.inj hs]
      exact h.setOther hpid hmine (hconfined.2 _) _
        (V.exec_foreign env op _ _ hconfined.1 h.shared) h.held _
  | acquire key next =>
      cases choice with
      | false =>
          rw [← Option.some.inj hs]
          exact h.setOther hpid hmine (hconfined.2 false) _ h.shared h.held _
      | true =>
          simp only [if_true] at hs
          split at hs
          · contradiction
          · rw [← Option.some.inj hs]
            exact h.setOther hpid hmine (hconfined.2 true) _ h.shared (hfar hconfined.1 true) _
  | release key next =>
      rw [← Option.some.inj hs]
      exact h.setOther hpid hmine hconfined.2 _ h.shared (hfar hconfined.1 false) _
  | either l r =>
      rw [← Option.some.inj hs]
      refine h.setOther hpid hmine ?_ _ h.shared h.held _
      cases choice with
      | true => exact hconfined.1
      | false => exact hconfined.2

end Matches

variable [DecidableEq κ]

/-- **Non-interference**: without the programs and drifts the observer does
not see, the run goes through as well, and ends in a pool it cannot tell from
the one of the full run. -/
theorem hidden_run {hidden : Nat → Bool} {P P' Q : Pool Op Reply κ α ρ σ}
    {ls : List (Pool.Label ρ ε δ)} (h : V.Matches hidden P P')
    (he : exec (Pool.step M) P ls = some Q) :
    ∃ Q' hidden', exec (Pool.step M) P' (Pool.hide V.mine V.seen hidden ls) = some Q' ∧
      V.Matches hidden' Q Q' := by
  induction ls generalizing P P' hidden with
  | nil =>
      rw [exec, Option.some.injEq] at he
      exact ⟨P', hidden, rfl, he ▸ h⟩
  | cons l ls ih =>
      rw [exec, Option.bind_eq_some_iff] at he
      obtain ⟨P₁, hs, he⟩ := he
      cases l with
      | arrive pid tag =>
          have hnone : P.procs pid = none := by
            rcases Pool.step_cases hs with ⟨_, _, heq, hp, -⟩ | ⟨_, _, _, _, _, _, heq, -⟩ |
              ⟨_, _, _, _, _, _, heq, -⟩ | ⟨_, _, heq, -⟩ <;> cases heq
            exact hp
          simp only [Pool.step, hnone, Option.some.injEq] at hs
          subst hs
          have hpid : hidden pid = false := by
            cases hh : hidden pid with
            | false => rfl
            | true =>
                obtain ⟨-, p, hp, -⟩ := h.others pid hh
                rw [hnone] at hp
                contradiction
          have hnone' : P'.procs pid = none := by rw [h.same pid hpid, hnone]
          rw [Pool.hide]
          split
          · next hmine =>
              have hboth := h.setBoth hpid hmine (V.confined_own tag hmine) [] h.shared h.held
                P.trace P'.trace
              obtain ⟨Q', hidden', hrun, hm⟩ := ih hboth he
              refine ⟨Q', hidden', ?_, hm⟩
              rw [exec, Pool.step]
              simp only [hnone', Option.bind_some]
              exact hrun
          · next hmine =>
              rw [Bool.not_eq_true] at hmine
              have hset :=
                h.setHidden hnone' hmine (V.confined_foreign tag hmine) [] h.shared h.held
                P.trace
              exact ih hset he
      | advance pid choice env =>
          rw [Pool.hide]
          split
          · next hpid => exact ih (h.advance_hidden hpid hs) he
          · next hpid =>
              rw [Bool.not_eq_true] at hpid
              obtain ⟨P₂, hs', hm⟩ := h.advance hpid hs
              obtain ⟨Q', hidden', hrun, hm'⟩ := ih hm he
              refine ⟨Q', hidden', ?_, hm'⟩
              rw [exec, Pool.step, hs', Option.bind_some]
              exact hrun
      | drift d =>
          rw [Pool.step, Option.map_eq_some_iff] at hs
          obtain ⟨s, hd, rfl⟩ := hs
          rw [Pool.hide]
          split
          · next hseen =>
              obtain ⟨t, hd', ht⟩ := V.drift_seen d _ _ s hseen h.shared hd
              have hm : V.Matches hidden { P with shared := s } { P' with shared := t } :=
                { h with shared := ht }
              obtain ⟨Q', hidden', hrun, hm'⟩ := ih hm he
              refine ⟨Q', hidden', ?_, hm'⟩
              rw [exec, Pool.step, hd', Option.map_some, Option.bind_some]
              exact hrun
          · next hseen =>
              rw [Bool.not_eq_true] at hseen
              have hm : V.Matches hidden { P with shared := s } P' :=
                { h with shared := V.drift_unseen d _ _ s hseen h.shared hd }
              exact ih hm he

end View

end Library
