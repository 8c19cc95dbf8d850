import Mathlib.Algebra.Order.Group.Defs
import Mathlib.Order.Lattice

/-!
# IdempotentTransformer.Library.Saturation

Arithmetic that saturates at the ends of an interval.

Clamping moves values, but none past a value inside the interval: a clamped
value compares with it as the exact one does (`clamp_le_iff`).  So a clamped
difference has the sign of the exact one (`clamp_sub_nonpos_iff`), and several
clamps in a row are dealt with one after another.
-/

namespace Library

section LinearOrder

variable {α : Type*} [LinearOrder α] {lo hi x c : α}

/-- The value of the interval nearest to `x`. -/
def clamp (lo hi x : α) : α := max lo (min hi x)

/-- A value of the interval stays. -/
theorem clamp_of_mem (hlo : lo ≤ x) (hhi : x ≤ hi) : clamp lo hi x = x := by
  simp [clamp, hlo, hhi]

theorem clamp_le (hlo : lo ≤ c) (h : x ≤ c) : clamp lo hi x ≤ c :=
  max_le hlo ((min_le_right hi x).trans h)

theorem lt_clamp (hhi : c < hi) (h : c < x) : c < clamp lo hi x :=
  lt_max_of_lt_right (lt_min hhi h)

/-- **Clamping moves no value past one inside the interval.** -/
theorem clamp_le_iff (hlo : lo ≤ c) (hhi : c < hi) : clamp lo hi x ≤ c ↔ x ≤ c := by
  refine ⟨fun h => ?_, clamp_le hlo⟩
  by_contra hlt
  exact (lt_clamp hhi (not_le.mp hlt)).not_ge h

end LinearOrder

section Group

variable {α : Type*} [AddCommGroup α] [LinearOrder α] [IsOrderedAddMonoid α]

/-- A clamped difference has the sign of the exact one. -/
theorem clamp_sub_nonpos_iff {lo hi x n : α} (hlo : lo ≤ 0) (hhi : 0 < hi) :
    clamp lo hi (x - n) ≤ 0 ↔ x ≤ n :=
  (clamp_le_iff hlo hhi).trans sub_nonpos

end Group

end Library
