import Mathlib.Algebra.Order.Group.Unbundled.Basic
import Mathlib.Algebra.Order.Monoid.Defs
import Mathlib.Tactic.Abel

/-!
# Token buckets

A bucket gains what is earned while time passes, up to its capacity, and pays the
cost of a packet out of its level. An `Account` is the level together with all that
was earned and spent so far. `Paid a b` says that what was spent on the way from `a`
to `b` was covered: it is a preorder, so a bound over one step is a bound over every
window of steps.
-/

namespace TokenBucket

variable {α : Type*} [AddCommGroup α] [LinearOrder α]

/-- The level after earning `earned` and paying `cost`, if it can be paid. -/
def withdraw (capacity cost level earned : α) : Option α :=
  let filled := min (earned + level) capacity
  if filled < cost then none else some (filled - cost)

section Withdraw

variable {capacity cost level earned left : α}

theorem withdraw_add_le (h : withdraw capacity cost level earned = some left) :
    left + cost ≤ level + earned := by
  simp only [withdraw] at h
  split at h
  · cases h
  · cases h
    rw [sub_add_cancel, add_comm level]
    exact min_le_left _ _

variable [IsOrderedAddMonoid α]

theorem withdraw_nonneg (h : withdraw capacity cost level earned = some left) : 0 ≤ left := by
  simp only [withdraw] at h
  split at h
  · cases h
  next enough =>
    cases h
    exact sub_nonneg.mpr (not_lt.mp enough)

theorem withdraw_le (h : withdraw capacity cost level earned = some left) :
    left ≤ capacity - cost := by
  simp only [withdraw] at h
  split at h
  · cases h
  · cases h
    exact sub_le_sub_right (min_le_right _ _) cost

end Withdraw

structure Account (α : Type*) where
  level : α
  earned : α
  spent : α

/-- What `b` has spent beyond `a` was in the bucket or has been earned. -/
def Paid (a b : Account α) : Prop := b.level + b.spent + a.earned ≤ a.level + a.spent + b.earned

theorem Paid.refl (a : Account α) : Paid a a := le_refl _

variable [IsOrderedAddMonoid α]

theorem Paid.trans {a b c : Account α} (first : Paid a b) (second : Paid b c) : Paid a c := by
  have h : b.level + b.spent + a.earned + (c.level + c.spent + b.earned) ≤
      a.level + a.spent + b.earned + (b.level + b.spent + c.earned) := add_le_add first second
  have hleft : b.level + b.spent + a.earned + (c.level + c.spent + b.earned) =
      c.level + c.spent + a.earned + (b.level + b.spent + b.earned) := by abel
  have hright : a.level + a.spent + b.earned + (b.level + b.spent + c.earned) =
      a.level + a.spent + c.earned + (b.level + b.spent + b.earned) := by abel
  rw [hleft, hright] at h
  exact le_of_add_le_add_right h

/-- Whatever the steps in between, spending is bounded by the level at the start of
the window and what was earned in it. -/
theorem Paid.spent_le {a b : Account α} (h : Paid a b) (nonneg : 0 ≤ b.level) :
    b.spent - a.spent ≤ a.level + (b.earned - a.earned) := by
  have hdrop : b.spent + a.earned ≤ a.level + a.spent + b.earned :=
    calc b.spent + a.earned ≤ b.level + (b.spent + a.earned) := le_add_of_nonneg_left nonneg
      _ = b.level + b.spent + a.earned := (add_assoc _ _ _).symm
      _ ≤ a.level + a.spent + b.earned := h
  rw [sub_le_iff_le_add]
  calc b.spent ≤ a.level + a.spent + b.earned - a.earned := le_sub_iff_add_le.mpr hdrop
    _ = a.level + (b.earned - a.earned) + a.spent := by abel

end TokenBucket
