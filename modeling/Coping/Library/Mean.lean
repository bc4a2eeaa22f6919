import Mathlib.Algebra.Order.Ring.Int
import Mathlib.Tactic.Linarith

/-!
# Running extrema and means

A program that keeps a count, a sum and the extrema of the values it has seen,
with no value remembered, still knows that the mean lies between the extrema.
`Spread` is what it has to keep for that; before the first value the extrema may be
anything.
-/

/-- A sum of `count` values between `lower` and `upper`. -/
structure Spread {α : Type*} [CommRing α] [LinearOrder α] [IsStrictOrderedRing α]
    (count : Nat) (lower upper sum : α) : Prop where
  lower : count * lower ≤ sum
  upper : sum ≤ count * upper

namespace Spread

section Ring

variable {α : Type*} [CommRing α] [LinearOrder α] [IsStrictOrderedRing α]
variable {count : Nat} {lower upper sum value : α}

theorem empty (lower upper : α) : Spread 0 lower upper 0 :=
  ⟨by simp, by simp⟩

/-- One more value. -/
theorem insert (h : Spread count lower upper sum) (value : α) :
    Spread (count + 1) (min lower value) (max upper value) (sum + value) := by
  have hcount : (0 : α) ≤ count := Nat.cast_nonneg count
  have hlow : count * min lower value ≤ count * lower :=
    mul_le_mul_of_nonneg_left (min_le_left _ _) hcount
  have hup : count * upper ≤ count * max upper value :=
    mul_le_mul_of_nonneg_left (le_max_left _ _) hcount
  constructor
  · calc ((count + 1 : Nat) : α) * min lower value
        = count * min lower value + min lower value := by rw [Nat.cast_add_one, add_one_mul]
      _ ≤ sum + value := add_le_add (hlow.trans h.lower) (min_le_right _ _)
  · calc sum + value ≤ count * max upper value + max upper value :=
        add_le_add (h.upper.trans hup) (le_max_right _ _)
      _ = ((count + 1 : Nat) : α) * max upper value := by rw [Nat.cast_add_one, add_one_mul]

end Ring

/-- The integer part of the mean lies between the extrema. -/
theorem mean {count : Nat} {lower upper sum : Int} (h : Spread count lower upper sum)
    (nonempty : 0 < count) : lower ≤ sum / count ∧ sum / count ≤ upper := by
  have hpos : (0 : Int) < count := Int.natCast_pos.mpr nonempty
  constructor
  · rw [Int.le_ediv_iff_mul_le hpos, mul_comm]
    exact h.lower
  · apply Int.ediv_le_of_le_mul hpos
    rw [mul_comm]
    exact h.upper

end Spread

/-- A larger divisor yields the same quotient exactly when the remainder has the quotient left for
each of the units by which it is larger. -/
theorem Int.ediv_eq_ediv_add_iff {sum count more : Int} (sum_nonneg : 0 ≤ sum) (pos : 0 < count)
    (more_nonneg : 0 ≤ more) :
    sum / count = sum / (count + more) ↔ more * (sum / count) ≤ sum % count := by
  have htotal : 0 < count + more := by omega
  have hsplit : count * (sum / count) + sum % count = sum := Int.mul_ediv_add_emod sum count
  have hrest : sum % count < count := Int.emod_lt_of_pos sum pos
  have hquotient : 0 ≤ sum / count := Int.ediv_nonneg sum_nonneg pos.le
  have hmore : 0 ≤ more * (sum / count) := mul_nonneg more_nonneg hquotient
  have hexpand : (sum / count) * (count + more) = count * (sum / count) + more * (sum / count) := by
    rw [mul_add, mul_comm _ count, mul_comm _ more]
  constructor
  · intro same
    have hle : (sum / count) * (count + more) ≤ sum := by
      conv_lhs => rw [same]
      exact Int.ediv_mul_le sum htotal.ne'
    omega
  · intro hfits
    symm
    rw [Int.ediv_eq_iff_of_pos htotal]
    constructor
    · omega
    · have hupper : (sum / count + 1) * (count + more) =
          count * (sum / count) + more * (sum / count) + (count + more) := by
        rw [add_mul, one_mul, hexpand]
      omega
