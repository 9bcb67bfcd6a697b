import Mathlib.Algebra.BigOperators.Group.List.Basic
import Mathlib.Algebra.Ring.Periodic

/-!
# Sums over a cycle

All windows of a periodic sequence that are as long as its period have the same sum.
-/

namespace List

variable {M : Type} [AddCancelCommMonoid M] {f : ℕ → M} {n : ℕ}

/-- Moving a window by one drops a value and takes in an equal one. -/
theorem sum_map_range'_slide (f : ℕ → M) (k n : ℕ) :
    f k + ((range' (k + 1) n).map f).sum = ((range' k n).map f).sum + f (k + n) := by
  rw [← sum_cons, ← map_cons, ← range'_succ, range'_1_concat, map_append, sum_append,
    map_singleton, sum_singleton]

/-- A window of a periodic sequence has the sum of the first one. -/
theorem sum_map_range'_of_periodic (h : Function.Periodic f n) (k : ℕ) :
    ((range' k n).map f).sum = ((range n).map f).sum := by
  induction k with
  | zero => rw [range_eq_range']
  | succ k ih =>
    have hslide := sum_map_range'_slide f k n
    rw [h k, add_comm] at hslide
    rw [add_right_cancel hslide, ih]

end List
