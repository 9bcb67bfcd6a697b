import Mathlib.Algebra.Order.Ring.Int
import Mathlib.Data.Nat.ModEq

/-!
# Steps around a cycle

Equal steps around a cycle come to exactly the places that differ from the start by a multiple
of the greatest common divisor.
-/

namespace Nat

variable {m d a w : ℕ}

/-- One more step from the place of `j` steps. -/
theorem mod_add_mul_succ (m d a j : ℕ) :
    ((a + j * d) % m + d) % m = (a + (j + 1) * d) % m := by
  rw [Nat.mod_add_mod, Nat.succ_mul, Nat.add_assoc]

/-- The places that equal steps around a cycle come to. -/
theorem exists_add_mul_mod_eq_iff (hw : w < m) :
    (∃ j, (a + j * d) % m = w) ↔ w ≡ a [MOD m.gcd d] := by
  constructor
  · rintro ⟨j, rfl⟩
    have hgcd : a + j * d ≡ a [MOD m.gcd d] := by
      have hd : j * d ≡ 0 [MOD m.gcd d] :=
        (Nat.modEq_zero_iff_dvd).mpr (Dvd.dvd.mul_left (Nat.gcd_dvd_right m d) j)
      simpa using Nat.ModEq.add_left a hd
    exact ((Nat.mod_modEq _ _).of_dvd (Nat.gcd_dvd_left m d)).trans hgcd
  · intro hmod
    -- far enough from the start, the way there is a combination of rounds and steps
    have hfar : a + m.pred * d.pred ≤ w + (a + d) * m := by
      have hround : a ≤ a * m := Nat.le_mul_of_pos_right a (by omega)
      have hsteps : m.pred * d.pred ≤ d * m := by
        rw [Nat.mul_comm d]
        exact Nat.mul_le_mul (Nat.pred_le m) (Nat.pred_le d)
      rw [Nat.add_mul]
      omega
    have hdvd : m.gcd d ∣ w + (a + d) * m - a := by
      have hrounds : w + (a + d) * m ≡ a [MOD m.gcd d] := by
        have hm : (a + d) * m ≡ 0 [MOD m.gcd d] :=
          (Nat.modEq_zero_iff_dvd).mpr (Dvd.dvd.mul_left (Nat.gcd_dvd_left m d) (a + d))
        simpa using Nat.ModEq.add hmod hm
      exact (Nat.modEq_iff_dvd' (by omega)).mp hrounds.symm
    obtain ⟨rounds, steps, hway⟩ :=
      Nat.exists_add_mul_eq_of_gcd_dvd_of_mul_pred_le m d _ hdvd (by omega)
    refine ⟨steps, ?_⟩
    calc (a + steps * d) % m = (a + steps * d + rounds * m) % m := by rw [Nat.add_mul_mod_self_right]
      _ = (w + (a + d) * m) % m := by congr 1; omega
      _ = w := by rw [Nat.add_mul_mod_self_right, Nat.mod_eq_of_lt hw]

end Nat
