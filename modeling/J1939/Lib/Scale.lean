import Mathlib.Algebra.Order.Field.Basic
import Mathlib.Algebra.Order.Floor.Ring
import Mathlib.Tactic.Ring

/-!
# Scales

A scale reads a position as so many gains above an offset. The gain may be negative, then the
scale goes down. Cutting a position off to an integer moves its reading by less than one gain.
-/

structure Scale (K : Type) [Field K] where
  gain : K
  offset : K
  gain_ne_zero : gain ≠ 0

namespace Scale

section Field

variable {K : Type} [Field K] (s : Scale K)

/-- What stands at a position. -/
def reading (p : K) : K := p * s.gain + s.offset

/-- Where a reading stands. -/
def position (x : K) : K := (x - s.offset) / s.gain

theorem reading_position (x : K) : s.reading (s.position x) = x := by
  rw [reading, position, div_mul_cancel₀ _ s.gain_ne_zero, sub_add_cancel]

theorem position_reading (p : K) : s.position (s.reading p) = p := by
  rw [position, reading, add_sub_cancel_right, mul_div_cancel_right₀ _ s.gain_ne_zero]

theorem reading_sub_reading (p q : K) : s.reading p - s.reading q = (p - q) * s.gain := by
  unfold reading
  ring

end Field

section Floor

variable {K : Type} [Field K] [LinearOrder K] [IsStrictOrderedRing K] [FloorRing K]
  (s : Scale K)

/-- The reading of the integer below a position is less than one gain away. -/
theorem abs_reading_floor_sub_lt (x : K) : |s.reading ⌊s.position x⌋ - x| < |s.gain| := by
  set p := s.position x with hp
  have hx : s.reading p = x := s.reading_position x
  have hcut : (⌊p⌋ : K) - p = -Int.fract p := by rw [← Int.self_sub_floor, neg_sub]
  have hgain : 0 < |s.gain| := abs_pos.mpr s.gain_ne_zero
  calc |s.reading ⌊p⌋ - x| = |s.reading ⌊p⌋ - s.reading p| := by rw [hx]
    _ = Int.fract p * |s.gain| := by
      rw [reading_sub_reading, hcut, abs_mul, abs_neg, Int.abs_fract]
    _ < |s.gain| := mul_lt_of_lt_one_left hgain (Int.fract_lt_one p)

end Floor

end Scale
