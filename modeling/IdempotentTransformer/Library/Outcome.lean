import IdempotentTransformer.Library.Program

/-!
# IdempotentTransformer.Library.Outcome

What the result of a program says about the calls it has made.

* `Program.Finally` — every result the program can still have meets a
  condition;
* `Program.Marks` — once a call has had a marking reply, every result does,
  so a result that does not meet the condition was reached without one
  (`Trail.result_of_marked`);
* `Program.Spends` — the calls of a kind are at most so many
  (`Trail.countP_le`).

Each is checked once per program, by rules for its sequential and concurrent
composition.
-/

namespace Library

namespace Program

variable {Op : Type} {Reply : Op → Type} {κ α β γ : Type}

/-! ## Results still to come -/

/-- Every result of the program meets `D`. -/
def Finally (D : α → Prop) : Program Op Reply κ α → Prop
  | .ret a => D a
  | .call _ next => ∀ r, Finally D (next r)
  | .acquire _ next => ∀ b, Finally D (next b)
  | .release _ next => Finally D next
  | .either l r => Finally D l ∧ Finally D r

/-- A weaker condition is met too. -/
theorem Finally.imp {D E : α → Prop} (hD : ∀ a, D a → E a) {p : Program Op Reply κ α}
    (h : Finally D p) : Finally E p := by
  induction p with
  | ret a => exact hD a h
  | call op next ih => exact fun r => ih r (h r)
  | acquire key next ih => exact fun b => ih b (h b)
  | release key next ih => exact ih h
  | either l r ihl ihr => exact ⟨ihl h.1, ihr h.2⟩

/-- Results meet what holds of everything. -/
theorem finally_of_forall {D : α → Prop} (h : ∀ a, D a) (p : Program Op Reply κ α) :
    Finally D p := by
  induction p with
  | ret a => exact h a
  | call op next ih => exact ih
  | acquire key next ih => exact ih
  | release key next ih => exact ih
  | either l r ihl ihr => exact ⟨ihl, ihr⟩

/-- The rule for sequential composition. -/
theorem finally_bind {D : α → Prop} {E : β → Prop} {p : Program Op Reply κ α}
    {f : α → Program Op Reply κ β} (hp : Finally D p) (hf : ∀ a, D a → Finally E (f a)) :
    Finally E (p.bind f) := by
  induction p with
  | ret a => exact hf a hp
  | call op next ih => exact fun r => ih r (hp r)
  | acquire key next ih => exact fun b => ih b (hp b)
  | release key next ih => exact ih hp
  | either l r ihl ihr => exact ⟨ihl hp.1, ihr hp.2⟩

/-- What the partner makes of the rest of a program, it makes of it at every
point. -/
theorem finally_interleave {D : β → Prop} {E : γ → Prop}
    {partner : Program Op Reply κ β → Program Op Reply κ γ}
    (hpartner : ∀ q, Finally D q → Finally E (partner q)) {q : Program Op Reply κ β}
    (hq : Finally D q) : Finally E (interleave partner q) := by
  induction q with
  | ret b => exact hpartner _ hq
  | call op next ih => exact ⟨hpartner _ hq, fun r => ih r (hq r)⟩
  | acquire key next ih => exact ⟨hpartner _ hq, fun b => ih b (hq b)⟩
  | release key next ih => exact ⟨hpartner _ hq, ih hq⟩
  | either l r ihl ihr => exact ⟨ihl hq.1, ihr hq.2⟩

/-- The rule for concurrent composition. -/
theorem finally_join {D : α → Prop} {E : β → Prop} {F : α × β → Prop}
    (hF : ∀ a b, D a → E b → F (a, b)) {p : Program Op Reply κ α} {q : Program Op Reply κ β}
    (hp : Finally D p) (hq : Finally E q) : Finally F (join p q) := by
  induction p generalizing q with
  | ret a => exact finally_bind hq fun b hb => hF a b hp hb
  | call op next ih =>
      rw [join]
      refine finally_interleave (fun q hq => ?_) hq
      exact fun r => ih r (hp r) hq
  | acquire key next ih =>
      rw [join]
      refine finally_interleave (fun q hq => ?_) hq
      exact fun b => ih b (hp b) hq
  | release key next ih =>
      rw [join]
      refine finally_interleave (fun q hq => ?_) hq
      exact ih hp hq
  | either l r ihl ihr => exact ⟨ihl hp.1 hq, ihr hp.2 hq⟩

/-- What is left of a program has no other results. -/
theorem Trail.finally {D : α → Prop} {p q : Program Op Reply κ α} {log : Log Op Reply}
    (h : Trail p log q) (hp : Finally D p) : Finally D q := by
  induction h with
  | start => exact hp
  | call _ r ih => exact ih r
  | silent _ hs ih =>
      cases hs with
      | acquire key next taken => exact ih taken
      | release key next => exact ih
      | left l r => exact ih.1
      | right l r => exact ih.2

/-! ## Marking replies -/

/-- After a reply that meets `F`, every result meets `D`. -/
def Marks (F : (op : Op) → Reply op → Prop) (D : α → Prop) : Program Op Reply κ α → Prop
  | .ret _ => True
  | .call op next => ∀ r, (F op r → Finally D (next r)) ∧ Marks F D (next r)
  | .acquire _ next => ∀ b, Marks F D (next b)
  | .release _ next => Marks F D next
  | .either l r => Marks F D l ∧ Marks F D r

section Marks

variable {F : (op : Op) → Reply op → Prop} {D : α → Prop} {E : β → Prop}

/-- A program all of whose results meet `D` is marked by anything. -/
theorem Finally.marks {p : Program Op Reply κ α} (h : Finally D p) : Marks F D p := by
  induction p with
  | ret a => trivial
  | call op next ih => exact fun r => ⟨fun _ => h r, ih r (h r)⟩
  | acquire key next ih => exact fun b => ih b (h b)
  | release key next ih => exact ih h
  | either l r ihl ihr => exact ⟨ihl h.1, ihr h.2⟩

/-- A mark shows a weaker condition too. -/
theorem Marks.imp {D' : α → Prop} (hD : ∀ a, D a → D' a) {p : Program Op Reply κ α}
    (h : Marks F D p) : Marks F D' p := by
  induction p with
  | ret a => trivial
  | call op next ih => exact fun r => ⟨fun hr => ((h r).1 hr).imp hD, ih r (h r).2⟩
  | acquire key next ih => exact fun b => ih b (h b)
  | release key next ih => exact ih h
  | either l r ihl ihr => exact ⟨ihl h.1, ihr h.2⟩

/-- The rule for sequential composition: a mark goes through. -/
theorem marks_bind {p : Program Op Reply κ α} {f : α → Program Op Reply κ β} (hp : Marks F D p)
    (hthrough : ∀ a, D a → Finally E (f a)) (hf : ∀ a, Marks F E (f a)) :
    Marks F E (p.bind f) := by
  induction p with
  | ret a => exact hf a
  | call op next ih =>
      exact fun r => ⟨fun hr => finally_bind ((hp r).1 hr) hthrough, ih r (hp r).2⟩
  | acquire key next ih => exact fun b => ih b (hp b)
  | release key next ih => exact ih hp
  | either l r ihl ihr => exact ⟨ihl hp.1, ihr hp.2⟩

theorem marks_interleave {G : γ → Prop} {partner : Program Op Reply κ β → Program Op Reply κ γ}
    (hmarks : ∀ q, Marks F E q → Marks F G (partner q))
    (hfinally : ∀ q, Finally E q → Finally G (partner q)) {q : Program Op Reply κ β}
    (hq : Marks F E q) : Marks F G (interleave partner q) := by
  induction q with
  | ret b => exact hmarks _ hq
  | call op next ih =>
      exact ⟨hmarks _ hq, fun r => ⟨fun hr => finally_interleave hfinally ((hq r).1 hr),
        ih r (hq r).2⟩⟩
  | acquire key next ih => exact ⟨hmarks _ hq, fun b => ih b (hq b)⟩
  | release key next ih => exact ⟨hmarks _ hq, ih hq⟩
  | either l r ihl ihr => exact ⟨ihl hq.1, ihr hq.2⟩

/-- The rule for concurrent composition: the result of the side that was marked
shows it. -/
theorem marks_join {p : Program Op Reply κ α} {q : Program Op Reply κ β} (hp : Marks F D p)
    (hq : Marks F E q) : Marks F (fun ab => D ab.1 ∨ E ab.2) (join p q) := by
  have hleft : ∀ (p : Program Op Reply κ α) (q : Program Op Reply κ β), Finally D p →
      Finally (fun ab => D ab.1 ∨ E ab.2) (join p q) := fun p q h =>
    finally_join (E := fun _ => True) (fun _ _ ha _ => .inl ha) h
      (finally_of_forall (fun _ => trivial) q)
  have hright : ∀ (p : Program Op Reply κ α) (q : Program Op Reply κ β), Finally E q →
      Finally (fun ab => D ab.1 ∨ E ab.2) (join p q) := fun p q h =>
    finally_join (D := fun _ => True) (fun _ _ _ hb => .inr hb)
      (finally_of_forall (fun _ => trivial) p) h
  induction p generalizing q with
  | ret a =>
      exact marks_bind hq (fun b hb => .inr hb) fun _ => trivial
  | call op next ih =>
      rw [join]
      refine marks_interleave (fun q hq => ?_) (fun q hq => ?_) hq
      · exact fun r => ⟨fun hr => hleft _ q ((hp r).1 hr), ih r (hp r).2 hq⟩
      · exact fun r => hright (next r) q hq
  | acquire key next ih =>
      rw [join]
      refine marks_interleave (fun q hq => ?_) (fun q hq => ?_) hq
      · exact fun b => ih b (hp b) hq
      · exact fun b => hright (next b) q hq
  | release key next ih =>
      rw [join]
      refine marks_interleave (fun q hq => ?_) (fun q hq => ?_) hq
      · exact ih hp hq
      · exact hright next q hq
  | either l r ihl ihr => exact ⟨ihl hp.1 hq, ihr hp.2 hq⟩

/-- What is left of a program after a marking reply has only marked results. -/
theorem Trail.finally_of_marked {p q : Program Op Reply κ α} {log : Log Op Reply}
    (h : Trail p log q) (hp : Marks F D p) :
    Marks F D q ∧ ((∃ entry ∈ log, F entry.1 entry.2) → Finally D q) := by
  induction h with
  | start => exact ⟨hp, fun ⟨entry, hentry, _⟩ => by simp at hentry⟩
  | @call log op next _ r ih =>
      obtain ⟨hmarks, hfinally⟩ := ih
      refine ⟨(hmarks r).2, fun ⟨entry, hentry, hmarked⟩ => ?_⟩
      rcases List.mem_cons.mp hentry with rfl | hentry
      · exact (hmarks r).1 hmarked
      · exact hfinally ⟨entry, hentry, hmarked⟩ r
  | silent _ hs ih =>
      obtain ⟨hmarks, hfinally⟩ := ih
      cases hs with
      | acquire key next taken => exact ⟨hmarks taken, fun h => hfinally h taken⟩
      | release key next => exact ⟨hmarks, fun h => hfinally h⟩
      | left l r => exact ⟨hmarks.1, fun h => (hfinally h).1⟩
      | right l r => exact ⟨hmarks.2, fun h => (hfinally h).2⟩

/-- **A result after a marking reply is marked.** -/
theorem Trail.result_of_marked {p : Program Op Reply κ α} {log : Log Op Reply} {a : α}
    (h : Trail p log (.ret a)) (hp : Marks F D p) {entry : (op : Op) × Reply op}
    (hentry : entry ∈ log) (hmarked : F entry.1 entry.2) : D a :=
  (h.finally_of_marked hp).2 ⟨entry, hentry, hmarked⟩

end Marks

/-! ## Counting calls -/

/-- The program makes at most `n` calls of the kind `W`. -/
def Spends (W : Op → Bool) : Nat → Program Op Reply κ α → Prop
  | _, .ret _ => True
  | n, .call op next =>
      (W op = true → 0 < n) ∧ ∀ r, Spends W (if W op then n - 1 else n) (next r)
  | n, .acquire _ next => ∀ b, Spends W n (next b)
  | n, .release _ next => Spends W n next
  | n, .either l r => Spends W n l ∧ Spends W n r

section Spends

variable {W : Op → Bool} {m n : Nat}

/-- What is left of a budget after a call, with more to come. -/
private theorem budget_le {b : Bool} (hpos : b = true → 0 < m) :
    (if b then m - 1 else m) + n ≤ if b then m + n - 1 else m + n := by
  cases b with
  | false => exact Nat.le_refl _
  | true =>
      have hpos := hpos rfl
      simp only [if_true]
      omega

/-- A larger budget is one too. -/
theorem Spends.mono {p : Program Op Reply κ α} (h : Spends W m p) (hle : m ≤ n) :
    Spends W n p := by
  induction p generalizing m n with
  | ret a => trivial
  | call op next ih =>
      refine ⟨fun hw => by have := h.1 hw; omega, fun r => ih r (h.2 r) ?_⟩
      split <;> omega
  | acquire key next ih => exact fun b => ih b (h b) hle
  | release key next ih => exact ih h hle
  | either l r ihl ihr => exact ⟨ihl h.1 hle, ihr h.2 hle⟩

/-- The rule for sequential composition. -/
theorem spends_bind {p : Program Op Reply κ α} {f : α → Program Op Reply κ β}
    (hp : Spends W m p) (hf : ∀ a, Spends W n (f a)) : Spends W (m + n) (p.bind f) := by
  induction p generalizing m with
  | ret a => exact (hf a).mono (by omega)
  | call op next ih =>
      exact ⟨fun hw =>
        by have := hp.1 hw; omega, fun r => (ih r (hp.2 r)).mono (budget_le hp.1)⟩
  | acquire key next ih => exact fun b => ih b (hp b)
  | release key next ih => exact ih hp
  | either l r ihl ihr => exact ⟨ihl hp.1, ihr hp.2⟩

theorem Spends.mapResult {p : Program Op Reply κ α} (h : Spends W n p) (f : α → β) :
    Spends W n (p.mapResult f) := spends_bind (n := 0) h fun _ => trivial

theorem spends_interleave {partner : Program Op Reply κ β → Program Op Reply κ γ} {c : Nat}
    (hpartner : ∀ k q, Spends W k q → Spends W (c + k) (partner q)) {q : Program Op Reply κ β}
    (hq : Spends W n q) : Spends W (c + n) (interleave partner q) := by
  induction q generalizing n with
  | ret b => exact hpartner n _ hq
  | call op next ih =>
      refine ⟨hpartner n _ hq,
        fun hw => by have := hq.1 hw; omega, fun r => (ih r (hq.2 r)).mono ?_⟩
      rw [Nat.add_comm c, Nat.add_comm c]
      exact budget_le hq.1
  | acquire key next ih => exact ⟨hpartner n _ hq, fun b => ih b (hq b)⟩
  | release key next ih => exact ⟨hpartner n _ hq, ih hq⟩
  | either l r ihl ihr => exact ⟨ihl hq.1, ihr hq.2⟩

/-- The rule for concurrent composition. -/
theorem spends_join {p : Program Op Reply κ α} {q : Program Op Reply κ β} (hp : Spends W m p)
    (hq : Spends W n q) : Spends W (m + n) (join p q) := by
  induction p generalizing q m n with
  | ret a => exact (hq.mapResult (Prod.mk a)).mono (by omega)
  | call op next ih =>
      rw [join]
      refine spends_interleave (c := m) (fun k q hq => ?_) hq
      exact ⟨fun hw => by have := hp.1 hw; omega,
        fun r => (ih r (hp.2 r) hq).mono (budget_le hp.1)⟩
  | acquire key next ih =>
      rw [join]
      refine spends_interleave (c := m) (fun k q hq => ?_) hq
      exact fun b => ih b (hp b) hq
  | release key next ih =>
      rw [join]
      refine spends_interleave (c := m) (fun k q hq => ?_) hq
      exact ih hp hq
  | either l r ihl ihr => exact ⟨ihl hp.1 hq, ihr hp.2 hq⟩

/-- **A program keeps within its budget.** -/
theorem Trail.countP_le {p q : Program Op Reply κ α} {log : Log Op Reply} (h : Trail p log q)
    (hp : Spends W n p) : log.countP (fun entry => W entry.1) ≤ n := by
  have hkept : log.countP (fun entry => W entry.1) ≤ n ∧
      Spends W (n - log.countP fun entry => W entry.1) q := by
    induction h with
    | start => exact ⟨by simp, hp⟩
    | @call log op next _ r ih =>
        obtain ⟨hle, hpos, hnext⟩ := ih
        have hnext := hnext r
        by_cases hw : W op = true
        · have hlt := hpos hw
          simp only [hw, if_true] at hnext
          rw [List.countP_cons_of_pos (p := fun entry : (op : Op) × Reply op => W entry.1) hw]
          exact ⟨by omega, hnext.mono (by omega)⟩
        · simp only [hw, Bool.false_eq_true, if_false] at hnext
          rw [List.countP_cons_of_neg (p := fun entry : (op : Op) × Reply op => W entry.1) hw]
          exact ⟨hle, hnext⟩
    | silent _ hs ih =>
        obtain ⟨hle, hspends⟩ := ih
        cases hs with
        | acquire key next taken => exact ⟨hle, hspends taken⟩
        | release key next => exact ⟨hle, hspends⟩
        | left l r => exact ⟨hle, hspends.1⟩
        | right l r => exact ⟨hle, hspends.2⟩
  exact hkept.1

end Spends

end Program

end Library
