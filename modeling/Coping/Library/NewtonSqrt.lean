import Mathlib.Algebra.Group.Nat.Even
import Mathlib.Data.Nat.Sqrt
import Mathlib.Tactic.Linarith
import Mathlib.Tactic.Ring

/-!
# Newton's iteration for the square root of a natural number

A step takes the mean of a number and the quotient by it, with what is behind the point cut
off. It never falls below the floor of the root, from above the floor it descends, and at
the floor it stays, except directly below a square, where it goes one up.
-/

namespace NewtonSqrt

/-- One step toward the root of `a`. -/
def next (a x : Nat) : Nat := (x + a / x) / 2

variable {a x : Nat}

/-- The geometric mean is not above the arithmetic one. -/
theorem sqrt_le_next (positive : 0 < x) : a.sqrt ≤ next a x := by
  rw [next, Nat.le_div_iff_mul_le (by decide)]
  by_cases hfar : a.sqrt * 2 ≤ x
  · exact Nat.le_trans hfar (Nat.le_add_right x _)
  · obtain ⟨d, hd⟩ := Nat.exists_eq_add_of_lt (Nat.not_le.mp hfar)
    have hquotient : d + 1 ≤ a / x := by
      rw [Nat.le_div_iff_mul_le positive]
      have hsquare := Nat.sqrt_le a
      nlinarith [sq_nonneg ((d : Int) + 1 - x)]
    omega

/-- Above the floor the quotient is less than the number. -/
theorem next_lt (above : a.sqrt < x) : next a x < x := by
  have hquotient : a / x < x := by
    rw [Nat.div_lt_iff_lt_mul (Nat.zero_lt_of_lt above)]
    exact Nat.sqrt_lt.mp above
  rw [next]
  omega

/-- The sum never gets past the number itself and one more. -/
theorem add_div_le (positive : 0 < x) (le : x ≤ a) : x + a / x ≤ a + 1 := by
  obtain ⟨y, rfl⟩ := Nat.exists_eq_add_of_lt positive
  obtain ⟨d, rfl⟩ := Nat.exists_eq_add_of_le le
  have hquotient : (0 + y + 1 + d) / (0 + y + 1) ≤ d + 1 := by
    rw [Nat.add_div_left _ positive]
    exact Nat.succ_le_succ (Nat.div_le_self d _)
  omega

/-- The step from the floor. -/
theorem next_sqrt (positive : 0 < a) :
    next a a.sqrt = if IsSquare (a + 1) then a.sqrt + 1 else a.sqrt := by
  obtain ⟨s, hs⟩ : ∃ s, s = a.sqrt := ⟨_, rfl⟩
  have hpositive : 0 < s := hs ▸ Nat.sqrt_pos.mpr positive
  have hlower : s * s ≤ a := hs ▸ Nat.sqrt_le a
  have hupper : a < (s + 1) * (s + 1) := hs ▸ Nat.lt_succ_sqrt a
  have hexpand : (s + 1) * (s + 1) = s * s + 2 * s + 1 := by ring
  rw [← hs, next]
  split
  next hsquare =>
    obtain ⟨r, hr⟩ := hsquare
    -- the only square in reach is the next one
    have hroot : r = s + 1 := by
      apply Nat.le_antisymm
      · exact Nat.mul_self_le_mul_self_iff.mp (by omega)
      · rw [hs]
        exact Nat.sqrt_lt.mpr (by omega)
    have hvalue : a = s * (s + 2) := by
      rw [hroot, hexpand] at hr
      rw [Nat.mul_add]
      omega
    rw [hvalue, Nat.mul_div_cancel_left _ hpositive]
    omega
  next hnone =>
    have hquotient : a / s = s ∨ a / s = s + 1 := by
      have hleast : s ≤ a / s := (Nat.le_div_iff_mul_le hpositive).mpr hlower
      have hmost : a / s < s + 2 := by
        rw [Nat.div_lt_iff_lt_mul hpositive, Nat.add_mul]
        have : a + 1 ≠ (s + 1) * (s + 1) := fun h => hnone ⟨s + 1, h⟩
        omega
      omega
    omega

end NewtonSqrt
