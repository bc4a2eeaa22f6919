import Mathlib.Algebra.Order.Ring.Int

/-!
# Smoothed averages

An average of samples that is kept `w` times over. A new sample replaces the `w`-th part of
what is kept, rounded down; a value of zero starts again with the sample. Rounding never
accumulates: what is kept stays below `w` times one more than the greatest sample, and
that is as much as the rounding of the average needs.
-/

namespace Smoothing

/-- The value after one more sample. -/
def next (w value sample : Int) : Int :=
  if value = 0 then sample * w else value - value / w + sample

/-- The average that is kept lies between two bounds. -/
structure Between (w lower upper value : Int) : Prop where
  lower : w * lower ≤ value
  upper : value < w * (upper + 1)

variable {w lower upper value sample : Int}

theorem Between.average (h : Between w lower upper value) (positive : 0 < w) :
    lower ≤ value / w ∧ value / w ≤ upper := by
  constructor
  · rw [Int.le_ediv_iff_mul_le positive, mul_comm]
    exact h.lower
  · apply Int.lt_add_one_iff.mp
    rw [Int.ediv_lt_iff_lt_mul positive, mul_comm]
    exact h.upper

theorem Between.mono {lower' upper' : Int} (h : Between w lower upper value) (positive : 0 < w)
    (lower_le : lower' ≤ lower) (le_upper : upper ≤ upper') : Between w lower' upper' value where
  lower := (mul_le_mul_of_nonneg_left lower_le positive.le).trans h.lower
  upper := h.upper.trans_le
    (mul_le_mul_of_nonneg_left (Int.add_le_add_right le_upper 1) positive.le)

/-- A single sample is its own average. -/
theorem between_single (positive : 0 < w) : Between w sample sample (sample * w) where
  lower := (mul_comm w sample).le
  upper := by
    rw [mul_comm sample w]
    exact mul_lt_mul_of_pos_left (Int.lt_succ sample) positive

/-- One more sample widens the bounds by no more than itself. -/
theorem Between.next (h : Between w lower upper value) (positive : 0 < w) (sample : Int) :
    Between w (min lower sample) (max upper sample) (next w value sample) := by
  rw [Smoothing.next]
  split
  · exact (between_single positive).mono positive (min_le_right _ _) (le_max_right _ _)
  obtain ⟨hlower, hupper⟩ := h.average positive
  have hsplit : value - value / w = (w - 1) * (value / w) + value % w := by
    have hdivision := Int.mul_ediv_add_emod value w
    rw [sub_mul, one_mul]
    omega
  have hrest := Int.emod_lt_of_pos value positive
  have hrest' := Int.emod_nonneg value positive.ne'
  have hweight : 0 ≤ w - 1 := by omega
  rw [hsplit]
  constructor
  · have hparts : (w - 1) * min lower sample ≤ (w - 1) * (value / w) :=
      mul_le_mul_of_nonneg_left ((min_le_left _ _).trans hlower) hweight
    have hsample := min_le_right lower sample
    rw [sub_mul, one_mul] at hparts
    omega
  · have hparts : (w - 1) * (value / w) ≤ (w - 1) * max upper sample :=
      mul_le_mul_of_nonneg_left (hupper.trans (le_max_left _ _)) hweight
    have hsample := le_max_right upper sample
    rw [sub_mul w 1 (max upper sample), one_mul] at hparts
    rw [mul_add, mul_one]
    omega

/-- Nothing is lost of a constant. -/
theorem next_constant (w sample : Int) (positive : 0 < w) :
    next w (w * sample) sample = w * sample := by
  rw [next, Int.mul_ediv_cancel_left sample positive.ne']
  split
  · exact mul_comm sample w
  · omega

end Smoothing
