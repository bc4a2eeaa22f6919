import Coping.Library.DecimalFraction
import Coping.Library.NewtonSqrt
import Coping.Ping.SquareRoot
import Mathlib.Analysis.Real.Sqrt

/-!
# The square root of the variance

The loop of `llsqrt` is Newton's iteration from the number itself. It descends to the floor
of the root, and what it returns is the step from there, one above the floor directly below a
square. Neither is a microsecond away from the root.
-/

namespace Coping.SquareRoot

open CInt CFormat NewtonSqrt

/-- The floor of the root, or the root of the next number if that is a square. -/
def nearRoot (a : Nat) : Nat := if 0 < a ∧ IsSquare (a + 1) then a.sqrt + 1 else a.sqrt

/-- The text is a time within a microsecond of the root, in milliseconds. -/
def WithinMicrosecond (text : List UInt8) (a : Nat) : Prop :=
  ∃ d, DecimalFraction.read text = some d ∧ |1000 * (d.value : ℝ) - √a| ≤ 1

variable {a prev x : Nat}

/-! ## The loop -/

/-- From anywhere above the floor the loop comes to the floor, and takes one step more. -/
theorem llsqrtLoop_eq (positive : 0 < a) (above : a.sqrt ≤ x) (descends : x < prev) :
    llsqrtLoop a prev x = next a a.sqrt := by
  induction x using Nat.strong_induction_on generalizing prev with
  | _ x ih =>
      have hroot : 0 < a.sqrt := Nat.sqrt_pos.mpr positive
      rw [llsqrtLoop, if_pos descends]
      rcases Nat.eq_or_lt_of_le above with rfl | habove
      · have hstays : ¬next a a.sqrt < a.sqrt := Nat.not_lt.mpr (sqrt_le_next hroot)
        rw [llsqrtLoop]
        exact if_neg hstays
      · have hlt := next_lt habove
        exact ih (next a x) hlt (sqrt_le_next (Nat.zero_lt_of_lt habove)) hlt

theorem next_sqrt_eq_nearRoot (positive : 0 < a) : next a a.sqrt = nearRoot a := by
  rw [next_sqrt positive, nearRoot]
  simp only [positive, true_and]

/-- No pass divides by zero or leaves the range, and after the last one that descends there
is one more. -/
theorem llsqrtPasses_eq {passes : Nat} (positive : 0 < a) (range : (a : Int) < longMax)
    (some_pass : 0 < passes) (enough : x < prev → x < passes)
    (inside : x < prev → 0 < x ∧ x ≤ a) :
    llsqrtPasses a passes prev x = some (llsqrtLoop a prev x : Int) := by
  induction passes generalizing prev x with
  | zero => exact absurd some_pass (Nat.lt_irrefl 0)
  | succ passes ih =>
      rw [llsqrtPasses, llsqrtLoop]
      by_cases hdescends : x < prev
      · obtain ⟨hpositive, hle⟩ := inside hdescends
        have henough := enough hdescends
        have hdivisor : ¬(x : Int) = 0 := by omega
        have hquotient : (a : Int).tdiv x = (a / x : Nat) := rfl
        obtain ⟨q, hq⟩ : ∃ q, q = a / x := ⟨_, rfl⟩
        have hsum : InLong ((x : Int) + (a : Int).tdiv x) := by
          have hbound := add_div_le hpositive hle
          rw [hquotient, ← hq]
          rw [← hq] at hbound
          rw [ longMax] at range
          exact ⟨by omega, by rw [ longMax]; omega⟩
        have hnext : ((x : Int) + (a : Int).tdiv x).tdiv 2 = (next a x : Nat) := rfl
        rw [if_pos (Int.ofNat_lt.mpr hdescends), if_neg hdivisor, checkedLong_of_inLong hsum,
          Option.bind_some, hnext, if_pos hdescends]
        apply ih
        · omega
        · omega
        · intro hlt
          have hroot : a.sqrt ≤ next a x := sqrt_le_next hpositive
          have hfloor : 0 < a.sqrt := Nat.sqrt_pos.mpr positive
          omega
      · rw [if_neg fun h => hdescends (Int.ofNat_lt.mp h), if_neg hdescends]

theorem llsqrt_natCast (range : (a : Int) < longMax) : llsqrt a = nearRoot a := by
  by_cases hpositive : 0 < a
  · rw [llsqrt, if_pos (Int.natCast_pos.mpr hpositive), Int.toNat_natCast,
      llsqrtLoop_eq hpositive (Nat.sqrt_le_self a) (Int.lt_toNat.mpr range),
      next_sqrt_eq_nearRoot hpositive]
  · obtain rfl : a = 0 := Nat.eq_zero_of_not_pos hpositive
    rfl

/-- With a pass more than the number there are enough. -/
theorem llsqrtWithin_eq {passes : Nat} (range : (a : Int) < longMax) (enough : a < passes) :
    llsqrtWithin passes a = some (llsqrt a) := by
  rw [llsqrtWithin, llsqrt]
  by_cases hpositive : 0 < a
  · have hgreatest : longMax = (longMax.toNat : Int) := rfl
    rw [if_pos (Int.natCast_pos.mpr hpositive), if_pos (Int.natCast_pos.mpr hpositive),
      Int.toNat_natCast, hgreatest]
    exact llsqrtPasses_eq hpositive range (Nat.zero_lt_of_lt enough) (fun _ => enough)
      fun _ => ⟨hpositive, Nat.le_refl a⟩
  · rw [if_neg fun h => hpositive (Int.natCast_pos.mp h),
      if_neg fun h => hpositive (Int.natCast_pos.mp h)]

/-! ## The text -/

/-- The floor of the root, or one more where the next number is a square. -/
theorem nearRoot_bounds :
    nearRoot a * nearRoot a ≤ a + 1 ∧ a < (nearRoot a + 1) * (nearRoot a + 1) := by
  have hlower : a.sqrt * a.sqrt ≤ a := Nat.sqrt_le a
  have hupper : a < (a.sqrt + 1) * (a.sqrt + 1) := Nat.lt_succ_sqrt a
  rw [nearRoot]
  split
  next hsquare =>
    obtain ⟨r, hr⟩ := hsquare.2
    have hroot : a.sqrt < r := Nat.sqrt_lt.mpr (by omega)
    constructor
    · rw [hr]
      exact Nat.mul_le_mul hroot hroot
    · exact Nat.lt_of_lt_of_le hupper (Nat.mul_le_mul (Nat.le_succ _) (Nat.le_succ _))
  next => exact ⟨Nat.le_succ_of_le hlower, hupper⟩

theorem abs_nearRoot_sub_sqrt_le : |(nearRoot a : ℝ) - √a| ≤ 1 := by
  obtain ⟨hlower, hupper⟩ := @nearRoot_bounds a
  obtain ⟨m, hm⟩ : ∃ m, m = nearRoot a := ⟨_, rfl⟩
  rw [← hm] at hlower hupper ⊢
  have hlower' : (m : ℝ) * m ≤ a + 1 := by exact_mod_cast hlower
  have hupper' : (a : ℝ) ≤ (m + 1) * (m + 1) := by exact_mod_cast hupper.le
  have hnonneg : (0 : ℝ) ≤ m := Nat.cast_nonneg m
  rw [abs_le]
  constructor
  · have habove : √(a : ℝ) ≤ m + 1 := by
      rw [Real.sqrt_le_iff]
      exact ⟨by linarith, by nlinarith⟩
    linarith
  · rcases Nat.eq_zero_or_pos m with hzero | hpositive
    · have hsqrt := Real.sqrt_nonneg (a : ℝ)
      rw [hzero, Nat.cast_zero]
      linarith
    · have hone : (1 : ℝ) ≤ m := Nat.one_le_cast.mpr hpositive
      have hbelow : (m : ℝ) - 1 ≤ √(a : ℝ) := by
        apply Real.le_sqrt_of_sq_le
        nlinarith
      linarith

theorem padded3_natCast (n : Nat) : padded3 n = zeroPadded 3 n := by
  have hnonneg : ¬(n : Int) < 0 := Int.not_lt.mpr (Int.natCast_nonneg n)
  rw [padded3, zeroPadded, if_neg hnonneg]

/-- A time in microseconds is written in thousandths of a millisecond. -/
theorem read_longTime {n : Nat} (range : (n : Int) ≤ longMax) :
    DecimalFraction.read (longTime n).bytes = some ⟨n, 3⟩ := by
  have hlong : toInt64 n = n := toInt64_of_inLong ⟨by omega, range⟩
  have htext : (longTime n).bytes =
      decimal (n / 1000 : Nat) ++ ascii "." ++ zeroPadded 3 (n % 1000 : Nat) := by
    show decimal ((toInt64 n).tdiv 1000) ++ 0x2e :: padded3 ((toInt64 n).tmod 1000) = _
    rw [hlong, List.append_assoc, ← padded3_natCast]
    rfl
  rw [htext]
  exact @DecimalFraction.read_shifted 3 (by decide) n

/-- What is printed is within a microsecond of the root. -/
theorem withinMicrosecond (range : (a : Int) < longMax) :
    WithinMicrosecond (longTime (llsqrt a)).bytes a := by
  have hsmall : (nearRoot a : Int) ≤ longMax := by
    have hle : nearRoot a ≤ a + 1 := Nat.le_trans (Nat.le_mul_self _) nearRoot_bounds.1
    omega
  refine ⟨⟨nearRoot a, 3⟩, ?_, ?_⟩
  · rw [llsqrt_natCast range]
    exact read_longTime hsmall
  · have hvalue : 1000 * ((DecimalFraction.value ⟨nearRoot a, 3⟩ : ℚ) : ℝ) = nearRoot a := by
      rw [DecimalFraction.value]
      push_cast
      ring
    rw [hvalue]
    exact abs_nearRoot_sub_sqrt_le

/-- For every number of a `long long` but the greatest the loop ends, and no pass of it is out
of range. It returns the floor of the root, or one more where the next number is a square, and
so a deviation is printed to a microsecond. -/
theorem llsqrt_correct (a : Int) (nonneg : 0 ≤ a) (range : a < 2 ^ 63 - 1) :
    (∃ enough, ∀ passes ≥ enough, llsqrtWithin passes a = some (llsqrt a)) ∧
      llsqrt a = nearRoot a.toNat ∧
      ∀ rts, statisticsVariance rts = a →
        WithinMicrosecond (rttTexts rts).rttmdev.bytes a.toNat := by
  obtain ⟨n, rfl⟩ := Int.eq_ofNat_of_zero_le nonneg
  have hrange : (n : Int) < longMax := range
  refine ⟨⟨n + 1, fun passes enough => llsqrtWithin_eq hrange enough⟩, llsqrt_natCast hrange, ?_⟩
  intro rts hvariance
  show WithinMicrosecond (longTime (llsqrt (statisticsVariance rts))).bytes n
  rw [hvariance]
  exact withinMicrosecond hrange

/-- Four times with a variance directly below the square of 1000. -/
def belowThousand : PingRts :=
  [2903, 3092, 970, 1035].foldl recordTriptime { ntransmitted := 4, nreceived := 4 }

theorem belowThousand_variance : statisticsVariance belowThousand = 999999 := rfl

theorem llsqrt_correct_below :
    (∃ enough, ∀ passes ≥ enough, llsqrtWithin passes 999999 = some (llsqrt 999999)) ∧
      llsqrt 999999 = 1000 ∧ WithinMicrosecond (rttTexts belowThousand).rttmdev.bytes 999999 :=
  have hcorrect := llsqrt_correct 999999 (by decide) (by decide)
  ⟨hcorrect.1, hcorrect.2.1.trans (by decide +kernel),
    hcorrect.2.2 belowThousand belowThousand_variance⟩

end Coping.SquareRoot
