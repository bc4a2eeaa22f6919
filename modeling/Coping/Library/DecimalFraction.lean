import Coping.Library.Json
import Mathlib.Algebra.Order.Ring.Rat
import Mathlib.Data.List.Induction
import Mathlib.Data.List.TakeWhile
import Mathlib.Tactic.Ring

/-!
# Decimal fractions

What digits with a point among them stand for. The number of places behind the point is
kept, because a text that is rounded promises half a unit of its last place.
-/

open CFormat

/-- The digits without the point, and how many of them are behind it. -/
structure DecimalFraction where
  mantissa : Nat
  places : Nat
  deriving DecidableEq

namespace DecimalFraction

/-- A text of digits. With a point there are digits on both sides of it. -/
def read (text : List UInt8) : Option DecimalFraction :=
  let whole := text.takeWhile Json.isDigit
  match text.dropWhile Json.isDigit with
  | [] => if whole.isEmpty then none else some ⟨natOfDigits whole, 0⟩
  | point :: fraction =>
      if point ≠ 0x2e ∨ whole.isEmpty ∨ fraction.isEmpty ∨ ¬fraction.all Json.isDigit then none
      else some ⟨natOfDigits (whole ++ fraction), fraction.length⟩

def value (d : DecimalFraction) : ℚ := d.mantissa / 10 ^ d.places

/-- One in the last place. -/
def unit (d : DecimalFraction) : ℚ := 1 / 10 ^ d.places

example : read (ascii "12.50") = some ⟨1250, 2⟩ := by decide

theorem digit_iff {c : UInt8} : Json.isDigit c = true ↔ 0x30 ≤ c ∧ c ≤ 0x39 := by
  rw [Json.isDigit, Bool.and_eq_true, decide_eq_true_iff, decide_eq_true_iff]

theorem digits_all (n : Nat) : ∀ c ∈ digits n, Json.isDigit c = true :=
  fun _ hc => digit_iff.mpr (isDigit_of_mem_digits hc)

theorem digits_isEmpty (n : Nat) : (digits n).isEmpty = false := by
  obtain ⟨c, rest, hdigits, -⟩ := digits_eq_cons n
  rw [hdigits]
  rfl

/-! ## Texts that are written -/

/-- The digits in front count by what follows them. -/
theorem natOfDigits_append (front back : List UInt8) :
    natOfDigits (front ++ back) = natOfDigits front * 10 ^ back.length + natOfDigits back := by
  induction back using List.reverseRecOn with
  | nil => simp [natOfDigits]
  | append_singleton back c ih =>
      have hlast : ∀ ds, natOfDigits (ds ++ [c]) = natOfDigits ds * 10 + (c.toNat - 0x30) := by
        intro ds
        rw [natOfDigits, List.foldl_append]
        rfl
      rw [← List.append_assoc, hlast, hlast, ih, List.length_append, List.length_singleton,
        Nat.pow_succ]
      ring

theorem natOfDigits_zeros (k : Nat) : natOfDigits (List.replicate k 0x30) = 0 := by
  induction k with
  | zero => rfl
  | succ k ih =>
      rw [List.replicate_succ', natOfDigits_append, ih]
      rfl

/-- A number that has the room is written in that many digits, and read back. -/
theorem zeroPadded_spec {width n : Nat} (positive : 0 < width) (fits : n < 10 ^ width) :
    (zeroPadded width n).length = width ∧ (∀ c ∈ zeroPadded width n, Json.isDigit c = true) ∧
      natOfDigits (zeroPadded width n) = n := by
  have hlength : (digits n).length ≤ width := by
    have := length_digits_le (k := width - 1) (n := n) (by rwa [Nat.sub_add_cancel positive])
    omega
  have htext :
      zeroPadded width n = List.replicate (width - (digits n).length) 0x30 ++ digits n := by
    rw [zeroPadded, if_neg (by omega)]
    rfl
  refine ⟨?_, ?_, ?_⟩
  · rw [htext, List.length_append, List.length_replicate, Nat.sub_add_cancel hlength]
  · rw [htext]
    intro c hc
    rcases List.mem_append.mp hc with h | h
    · rw [(List.mem_replicate.mp h).2]
      rfl
    · exact digits_all n c h
  · rw [htext, natOfDigits_append, natOfDigits_zeros, natOfDigits_digits, Nat.zero_mul,
      Nat.zero_add]

theorem read_whole (n : Nat) : read (decimal n) = some ⟨n, 0⟩ := by
  have hwhole : (digits n).takeWhile Json.isDigit = digits n :=
    List.takeWhile_eq_self_iff.mpr (digits_all n)
  have hrest : (digits n).dropWhile Json.isDigit = [] :=
    List.dropWhile_eq_nil_iff.mpr (digits_all n)
  rw [decimal_natCast, read, hwhole, hrest, digits_isEmpty, natOfDigits_digits]
  rfl

theorem read_point {width n fraction : Nat} (positive : 0 < width) (fits : fraction < 10 ^ width) :
    read (decimal n ++ ascii "." ++ zeroPadded width fraction) =
      some ⟨n * 10 ^ width + fraction, width⟩ := by
  obtain ⟨hlength, hdigits, hvalue⟩ := zeroPadded_spec positive fits
  have hpoint : decimal n ++ ascii "." ++ zeroPadded width fraction =
      digits n ++ 0x2e :: zeroPadded width fraction := by
    rw [decimal_natCast, List.append_assoc]
    rfl
  have hwhole : (digits n ++ 0x2e :: zeroPadded width fraction).takeWhile Json.isDigit =
      digits n := by
    rw [List.takeWhile_append_of_pos (digits_all n)]
    simp [Json.isDigit]
  have hrest : (digits n ++ 0x2e :: zeroPadded width fraction).dropWhile Json.isDigit =
      0x2e :: zeroPadded width fraction := by
    rw [List.dropWhile_append_of_pos (digits_all n)]
    rfl
  have hsome : (zeroPadded width fraction).isEmpty = false := by
    rw [List.isEmpty_eq_false_iff_exists_mem]
    exact List.exists_mem_of_length_pos (by omega)
  rw [hpoint, read, hwhole, hrest]
  simp only [digits_isEmpty, hsome, List.all_eq_true.mpr hdigits, natOfDigits_append,
    natOfDigits_digits, hvalue, hlength]
  rfl

/-- A number that is written with some of its digits behind the point. -/
theorem read_shifted {width : Nat} (positive : 0 < width) (n : Nat) :
    read (decimal (n / 10 ^ width : Nat) ++ ascii "." ++
      zeroPadded width (n % 10 ^ width : Nat)) = some ⟨n, width⟩ := by
  have hfits : n % 10 ^ width < 10 ^ width := Nat.mod_lt n (Nat.pow_pos (by decide))
  rw [read_point positive hfits, Nat.div_add_mod']

end DecimalFraction
