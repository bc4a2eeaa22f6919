import Mathlib.Init

/-!
# Integer conversions of C

Values are unbounded integers here; a conversion to a fixed-width type keeps the
residue that the type can represent. Arithmetic is written with these conversions
only where the C program can leave the range of the type it computes in.
-/

namespace CInt

def intMax : Int := 2147483647

def longMax : Int := 9223372036854775807

/-- Conversion to `int16_t`. -/
def toInt16 (x : Int) : Int := (x + 32768) % 65536 - 32768

/-- Conversion to `int`. -/
def toInt32 (x : Int) : Int := (x + 2147483648) % 4294967296 - 2147483648

/-- Conversion to `long`. -/
def toInt64 (x : Int) : Int :=
  (x + 9223372036854775808) % 18446744073709551616 - 9223372036854775808

/-- Conversion to `uint32_t`. -/
def toUInt32 (x : Int) : Int := x % 4294967296

/-- Conversion to `unsigned long`. -/
def toUInt64 (x : Int) : Int := x % 18446744073709551616

/-- A value of type `long`. -/
def InLong (x : Int) : Prop := -9223372036854775808 ≤ x ∧ x ≤ longMax

instance : DecidablePred InLong := fun _ => inferInstanceAs (Decidable (_ ∧ _))

/-- Signed arithmetic: a result that is out of range is no result. -/
def checkedLong (x : Int) : Option Int := if InLong x then some x else none

/-- A value of type `int`. -/
def InInt (x : Int) : Prop := -2147483648 ≤ x ∧ x ≤ intMax

instance : DecidablePred InInt := fun _ => inferInstanceAs (Decidable (_ ∧ _))

/-- Signed arithmetic in `int`. -/
def checkedInt (x : Int) : Option Int := if InInt x then some x else none

/-- A difference of two sequence numbers that are less than half a cycle apart
keeps its sign. -/
theorem toInt16_of_range {x : Int} (lower : -32768 ≤ x) (upper : x < 32768) :
    toInt16 x = x := by
  simp only [toInt16]
  omega

theorem toInt16_emod (x : Int) : toInt16 (x % 65536) = toInt16 x := by
  simp only [toInt16]
  omega

theorem toInt32_of_range {x : Int} (lower : -2147483648 ≤ x) (upper : x ≤ intMax) :
    toInt32 x = x := by
  simp only [toInt32]
  simp only [intMax] at upper
  omega

theorem toInt64_of_inLong {x : Int} (h : InLong x) : toInt64 x = x := by
  obtain ⟨hlower, hupper⟩ := h
  simp only [toInt64]
  simp only [longMax] at hupper
  omega

theorem checkedInt_of_range {x : Int} (lower : -2147483648 ≤ x) (upper : x ≤ intMax) :
    checkedInt x = some x := if_pos ⟨lower, upper⟩

theorem checkedInt_of_gt {x : Int} (beyond : intMax < x) : checkedInt x = none :=
  if_neg fun h => absurd h.2 (Int.not_le.mpr beyond)

theorem checkedInt_eq_some {x y : Int} : checkedInt x = some y ↔ InInt x ∧ x = y := by
  rw [checkedInt]
  split
  next h => exact ⟨fun heq => ⟨h, Option.some.inj heq⟩, fun heq => congrArg some heq.2⟩
  next h => exact ⟨fun heq => (by cases heq), fun heq => absurd heq.1 h⟩

theorem checkedLong_of_inLong {x : Int} (h : InLong x) : checkedLong x = some x := if_pos h

theorem checkedLong_eq_some {x y : Int} : checkedLong x = some y ↔ InLong x ∧ x = y := by
  rw [checkedLong]
  split
  next h => exact ⟨fun heq => ⟨h, Option.some.inj heq⟩, fun heq => congrArg some heq.2⟩
  next h => exact ⟨fun heq => (by cases heq), fun heq => absurd heq.1 h⟩

end CInt
