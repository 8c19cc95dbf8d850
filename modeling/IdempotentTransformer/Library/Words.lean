import Mathlib.Data.List.Forall2
import Mathlib.Data.List.TakeWhile

/-!
# IdempotentTransformer.Library.Words

Texts and the words in them.

Splitting a text at its blanks and dropping the empty pieces gives its words
(`words`); conversely a text spells a list of words, with blanks between them
and anywhere around them (`Spells`).  The two say the same (`words_eq_iff`),
so a reader of words need only be compared with a grammar of spellings.
Likewise the pieces between commas are the lists without one that the text
joins (`splitOn_eq_iff`), and reading piece after piece ends with all of them
or with the first that fails (`mapM_eq_ok_iff`, `mapM_eq_error_iff`).
-/

namespace Library

variable {α : Type} {blank : α → Bool} {cs gap w rest : List α} {ws : List (List α)}

/-- The pieces between the blanks, less the empty ones. -/
def words (blank : α → Bool) (cs : List α) : List (List α) :=
  (cs.splitOnP blank).filter fun w => !w.isEmpty

/-- The text consists of these words, apart from each other by blanks. -/
inductive Spells (blank : α → Bool) : List (List α) → List α → Prop
  | blanks {gap : List α} (hgap : ∀ a ∈ gap, blank a = true) : Spells blank [] gap
  | word {gap w rest : List α} {ws : List (List α)} (hgap : ∀ a ∈ gap, blank a = true)
      (hne : w ≠ []) (hw : ∀ a ∈ w, blank a = false) (hsep : ∀ a ∈ rest.head?, blank a = true)
      (h : Spells blank ws rest) : Spells blank (w :: ws) (gap ++ w ++ rest)

/-! ## Words -/

/-- A blank in front changes nothing. -/
theorem words_cons_blank {a : α} (h : blank a = true) :
    words blank (a :: cs) = words blank cs := by
  simp [words, List.splitOnP_cons_eq_if_modifyHead, h]

theorem words_append_blanks (h : ∀ a ∈ gap, blank a = true) :
    words blank (gap ++ cs) = words blank cs := by
  induction gap with
  | nil => rfl
  | cons a gap ih =>
      rw [List.cons_append, words_cons_blank (h a List.mem_cons_self)]
      exact ih fun b hb => h b (List.mem_cons_of_mem a hb)

/-- A word in front, up to a blank or the end, is the first. -/
theorem words_append_word (hne : w ≠ []) (hw : ∀ a ∈ w, blank a = false)
    (hsep : ∀ a ∈ rest.head?, blank a = true) :
    words blank (w ++ rest) = w :: words blank rest := by
  cases rest with
  | nil => simp [words, List.splitOnP_eq_singleton hw, hne, List.splitOnP_nil]
  | cons a rest =>
      have ha : blank a = true := hsep a rfl
      rw [words_cons_blank ha]
      simp [words, List.splitOnP_append_cons_of_forall_mem hw a ha, hne]

/-! ## Spellings -/

/-- The words a text spells are its words. -/
theorem Spells.words_eq (h : Spells blank ws cs) : words blank cs = ws := by
  induction h with
  | @blanks gap hgap =>
      have h : words blank (gap ++ []) = words blank [] := words_append_blanks hgap
      rwa [List.append_nil] at h
  | word hgap hne hw hsep h ih =>
      rw [List.append_assoc, words_append_blanks hgap, words_append_word hne hw hsep, ih]

/-- A blank may stand in front. -/
theorem Spells.cons_blank {a : α} (ha : blank a = true) (h : Spells blank ws cs) :
    Spells blank ws (a :: cs) := by
  cases h with
  | blanks hgap => exact .blanks (List.forall_mem_cons.mpr ⟨ha, hgap⟩)
  | @word gap w rest ws hgap hne hw hsep h =>
      have hgap' : ∀ b ∈ a :: gap, blank b = true := List.forall_mem_cons.mpr ⟨ha, hgap⟩
      exact .word hgap' hne hw hsep h

/-- A text spells its words. -/
theorem spells_words (blank : α → Bool) (cs : List α) : Spells blank (words blank cs) cs := by
  induction hn : cs.length using Nat.strong_induction_on generalizing cs with
  | _ n ih =>
    cases cs with
    | nil => exact .blanks (by simp)
    | cons a cs =>
        subst hn
        by_cases ha : blank a = true
        · rw [words_cons_blank ha]
          exact (ih cs.length (Nat.lt_succ_self _) cs rfl).cons_blank ha
        · -- The first word ends where the next blank or the text does.
          have ha' : (!blank a) = true := by simpa using ha
          have hsplit :
              (a :: cs).takeWhile (!blank ·) ++ (a :: cs).dropWhile (!blank ·) = a :: cs :=
            List.takeWhile_append_dropWhile
          have hne : (a :: cs).takeWhile (!blank ·) ≠ [] := by simp [ha']
          have hw : ∀ b ∈ (a :: cs).takeWhile (!blank ·), blank b = false := by
            intro b hb
            simpa using List.mem_takeWhile_imp hb
          have hsep : ∀ b ∈ ((a :: cs).dropWhile (!blank ·)).head?, blank b = true := by
            intro b hb
            have := List.head?_dropWhile_not (!blank ·) (a :: cs)
            rw [hb] at this
            simpa using this
          have hlt : ((a :: cs).dropWhile (!blank ·)).length < (a :: cs).length := by
            rw [List.dropWhile_cons_of_pos (p := fun b => !blank b) ha']
            exact Nat.lt_succ_of_le (List.dropWhile_suffix _).length_le
          have hgap : ∀ b ∈ ([] : List α), blank b = true := by simp
          have h := Spells.word hgap hne hw hsep (ih _ hlt _ rfl)
          rw [← words_append_word hne hw hsep, List.nil_append, hsplit] at h
          exact h

/-- **A text's words are those it spells.** -/
theorem words_eq_iff : words blank cs = ws ↔ Spells blank ws cs :=
  ⟨fun h => h ▸ spells_words blank cs, Spells.words_eq⟩

/-- Words are not empty and hold no blank. -/
theorem Spells.of_mem (h : Spells blank ws cs) (hw : w ∈ ws) :
    w ≠ [] ∧ (∀ a ∈ w, blank a = false) ∧ ∀ a ∈ w, a ∈ cs := by
  induction h with
  | blanks hgap => simp at hw
  | word hgap hne hword hsep h ih =>
      rcases List.mem_cons.mp hw with rfl | hw
      · exact ⟨hne, hword, fun a ha => by simp [ha]⟩
      · obtain ⟨hne, hword, hmem⟩ := ih hw
        exact ⟨hne, hword, fun a ha => List.mem_append_right _ (hmem a ha)⟩

/-! ## Pieces -/

section Pieces

variable [DecidableEq α] {a : α} {pieces : List (List α)}

theorem notMem_of_mem_splitOn (h : w ∈ cs.splitOn a) : a ∉ w := by
  induction cs generalizing w with
  | nil =>
      obtain rfl : w = [] := by simpa [List.splitOn_nil] using h
      exact List.not_mem_nil
  | cons b cs ih =>
      rw [List.splitOn_cons_eq_if_modifyHead] at h
      split at h
      · rcases List.mem_cons.mp h with rfl | h
        · exact List.not_mem_nil
        · exact ih h
      · next hb =>
          obtain ⟨first, others, hsplit⟩ :=
            List.exists_cons_of_ne_nil (List.splitOn_ne_nil a cs)
          rw [hsplit, List.modifyHead_cons] at h
          rcases List.mem_cons.mp h with rfl | h
          · have hfirst : a ∉ first := ih (by simp [hsplit])
            rw [List.mem_cons, not_or]
            exact ⟨fun heq => hb (by simp [heq]), hfirst⟩
          · exact ih (by simp [hsplit, h])

/-- **The pieces of a text** are those it joins. -/
theorem splitOn_eq_iff : cs.splitOn a = pieces ↔
    cs = [a].intercalate pieces ∧ pieces ≠ [] ∧ ∀ piece ∈ pieces, a ∉ piece := by
  constructor
  · rintro rfl
    exact ⟨(List.intercalate_splitOn a).symm, List.splitOn_ne_nil a cs,
      fun piece => notMem_of_mem_splitOn⟩
  · rintro ⟨rfl, hne, hpieces⟩
    exact List.splitOn_intercalate a hpieces hne

end Pieces

section Read

variable {β ε : Type} {f : α → Except ε β} {xs : List α}

/-- All are read, each as it is by itself. -/
theorem mapM_eq_ok_iff {ys : List β} :
    xs.mapM f = .ok ys ↔ List.Forall₂ (fun x y => f x = .ok y) xs ys := by
  induction xs generalizing ys with
  | nil => simp [pure, Except.pure, eq_comm]
  | cons x xs ih =>
      rw [List.mapM_cons, List.forall₂_cons_left_iff]
      cases hx : f x with
      | error e => simp [bind, Except.bind]
      | ok y =>
          cases hxs : xs.mapM f with
          | error e =>
              have hno : ∀ ys, ¬ List.Forall₂ (fun x y => f x = .ok y) xs ys := by
                intro ys h
                rw [← ih, hxs] at h
                cases h
              simp [bind, Except.bind, hno]
          | ok ys' => simp [bind, Except.bind, pure, Except.pure, ← ih, hxs, eq_comm]

/-- Reading fails as the first that fails. -/
theorem mapM_eq_error_iff {e : ε} :
    xs.mapM f = .error e ↔ ∃ before x after ys, xs = before ++ x :: after ∧
      List.Forall₂ (fun x y => f x = .ok y) before ys ∧ f x = .error e := by
  induction xs with
  | nil => simp [pure, Except.pure]
  | cons x xs ih =>
      rw [List.mapM_cons]
      constructor
      · intro h
        cases hx : f x with
        | error e' =>
            simp only [hx, bind, Except.bind, Except.error.injEq] at h
            exact ⟨[], x, xs, [], rfl, .nil, h ▸ hx⟩
        | ok y =>
            cases hxs : xs.mapM f with
            | ok ys => simp [hx, hxs, bind, Except.bind, pure, Except.pure] at h
            | error e' =>
                simp only [hx, hxs, bind, Except.bind, Except.error.injEq] at h
                obtain ⟨before, x', after, ys, rfl, hbefore, hx'⟩ := ih.mp (h ▸ hxs)
                exact ⟨x :: before, x', after, y :: ys, rfl, .cons hx hbefore, hx'⟩
      · rintro ⟨before, x', after, ys, hsplit, hbefore, hx'⟩
        cases hbefore with
        | nil =>
            obtain ⟨rfl, rfl⟩ := List.cons.inj hsplit
            simp [hx', bind, Except.bind]
        | @cons x₀ y before ys hx hbefore =>
            obtain ⟨rfl, rfl⟩ := List.cons.inj hsplit
            have hxs := ih.mpr ⟨before, x', after, ys, rfl, hbefore, hx'⟩
            simp only [hx, hxs, bind, Except.bind]

end Read

end Library
