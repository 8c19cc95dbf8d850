import Mathlib.Logic.Basic

/-!
# IdempotentTransformer.Library.Tenancy

A resource leased to one tenant at a time, by a landlord who keeps only the
lease itself: what is held names no tenant, and whoever gives the resource
back ends the lease that is held.

`moves` is the history of the resource, latest first.  `Exclusive` says that
whoever still has a lease in force is the tenant granted last, and that it
is his lease that is held.  It is kept by granting what nobody holds in
force and by giving back one's own lease in force; giving back late is what
breaks it.

`Undisputed` is for things that may be in each other's way, as two positions
under one key are, where nobody gives anything back.
-/

namespace Library

/-- What happens to the resource. -/
inductive Move (ι Λ : Type)
  | grant (tenant : ι) (lease : Λ)
  | giveBack (tenant : ι)

variable {ι Λ : Type} [DecidableEq ι]

/-- The lease granted last to a tenant, unless it was given back since. -/
def outstanding (tenant : ι) : List (Move ι Λ) → Option Λ
  | [] => none
  | .grant i lease :: moves => if i = tenant then some lease else outstanding tenant moves
  | .giveBack i :: moves => if i = tenant then none else outstanding tenant moves

/-- A tenant that was granted a lease and never gave back has one. -/
theorem outstanding_of_grant {i : ι} {moves : List (Move ι Λ)}
    (hg : ∃ lease, Move.grant i lease ∈ moves) (hn : Move.giveBack i ∉ moves) :
    ∃ lease, outstanding i moves = some lease := by
  induction moves with
  | nil =>
      obtain ⟨lease, hmem⟩ := hg
      contradiction
  | cons move moves ih =>
      rw [List.mem_cons, not_or] at hn
      obtain ⟨lease, hmem⟩ := hg
      cases move with
      | grant j l =>
          rw [outstanding]
          split
          · exact ⟨l, rfl⟩
          · next hj =>
              refine ih ⟨lease, ?_⟩ hn.2
              rcases List.mem_cons.mp hmem with heq | htail
              · cases heq
                contradiction
              · exact htail
      | giveBack j =>
          rw [outstanding, if_neg fun hj => hn.1 (by rw [hj])]
          refine ih ⟨lease, ?_⟩ hn.2
          rcases List.mem_cons.mp hmem with heq | htail
          · contradiction
          · exact htail

/-- The tenant granted last. -/
def holder : List (Move ι Λ) → Option ι
  | [] => none
  | .grant i _ :: _ => some i
  | .giveBack _ :: moves => holder moves

/-- **Exclusive tenancy.** -/
def Exclusive (live : Λ → Prop) (moves : List (Move ι Λ)) (held : Option Λ) : Prop :=
  ∀ tenant lease, outstanding tenant moves = some lease → live lease →
    held = some lease ∧ holder moves = some tenant

namespace Exclusive

variable {live live' : Λ → Prop} {moves : List (Move ι Λ)} {held : Option Λ}
  {i j : ι} {l l' : Λ}

theorem nil (live : Λ → Prop) (held : Option Λ) : Exclusive live
    ([] : List (Move ι Λ)) held := by
  intro tenant lease ho
  rw [outstanding] at ho
  contradiction

/-- Nobody else has a lease in force. -/
theorem unique (h : Exclusive live moves held) (hi : outstanding i moves = some l) (hl : live l)
    (hj : outstanding j moves = some l') (hl' : live l') : i = j := by
  have hholder := (h i l hi hl).2
  have hholder' := (h j l' hj hl').2
  rw [hholder] at hholder'
  exact Option.some.inj hholder'

/-- If no lease held is in force, none outstanding is. -/
theorem not_live (h : Exclusive live moves held)
    (hn : ∀ lease, held = some lease → ¬ live lease)
    (hi : outstanding i moves = some l) : ¬ live l :=
  fun hl => hn l (h i l hi hl).1 hl

/-- Granting what nobody holds in force. -/
theorem grant (h : Exclusive live moves held) (hn : ∀ lease, held = some lease → ¬ live lease)
    (i : ι) (l : Λ) : Exclusive live (.grant i l :: moves) (some l) := by
  intro tenant lease ho hl
  rw [outstanding] at ho
  split at ho
  · next hi => exact ⟨ho, by rw [holder, hi]⟩
  · exact absurd hl (h.not_live hn ho)

/-- While a tenant has a lease in force, or none held is in force, nobody else
has one. -/
theorem others (h : Exclusive live moves held)
    (hi : (∃ lease, outstanding i moves = some lease ∧ live lease) ∨
      ∀ lease, held = some lease → ¬ live lease)
    (hj : j ≠ i) (ho : outstanding j moves = some l) : ¬ live l := by
  intro hl
  rcases hi with ⟨own, howner, hlive⟩ | hn
  · exact hj (h.unique ho hl howner hlive)
  · exact h.not_live hn ho hl

/-- Giving back while nobody else has a lease in force. -/
theorem giveBack (hn : ∀ j l, j ≠ i → outstanding j moves = some l → ¬ live l) :
    Exclusive live (.giveBack i :: moves) none := by
  intro tenant lease ho hl
  rw [outstanding] at ho
  split at ho
  · contradiction
  · next hi => exact absurd hl (hn tenant lease (Ne.symm hi) ho)

/-- Leases may run out. -/
theorem mono (h : Exclusive live moves held) (hl : ∀ lease, live' lease → live lease) :
    Exclusive live' moves held :=
  fun tenant lease ho hlive => h tenant lease ho (hl lease hlive)

/-- The landlord may forget a lease that ran out. -/
theorem drop (h : Exclusive live moves held) (hn : ∀ lease, held = some lease → ¬ live lease)
    (held' : Option Λ) : Exclusive live moves held' :=
  fun _ _ ho hlive => absurd hlive (h.not_live hn ho)

end Exclusive

/-! ## Grants in each other's way -/

section Undisputed

variable {ι α : Type}

/-- The tenant was granted the thing, and nobody else was granted one in its way
since.  `grants` are latest first. -/
def Undisputed (meets : α → α → Prop) (tenant : ι) (a : α) : List (ι × α) → Prop
  | [] => False
  | grant :: grants =>
    grant = (tenant, a) ∨
      (grant.1 = tenant ∨ ¬ meets grant.2 a) ∧ Undisputed meets tenant a grants

/-- Two tenants have nothing in each other's way. -/
theorem Undisputed.exclusive {meets : α → α → Prop} (hsymm : ∀ {a b}, meets a b → meets b a)
    {i j : ι} (hne : i ≠ j) {a b : α} {grants : List (ι × α)} (hi : Undisputed meets i a grants)
    (hj : Undisputed meets j b grants) : ¬ meets a b := by
  induction grants with
  | nil => exact hi.elim
  | cons grant grants ih =>
      rcases hi with rfl | ⟨hapart, hi⟩
      · rcases hj with heq | ⟨heq | hapart, -⟩
        · exact absurd (congrArg Prod.fst heq) hne
        · exact absurd heq hne
        · exact hapart
      · rcases hj with rfl | ⟨-, hj⟩
        · rcases hapart with heq | hapart
          · exact absurd heq.symm hne
          · exact fun hmeets => hapart (hsymm hmeets)
        · exact ih hi hj

end Undisputed

end Library
