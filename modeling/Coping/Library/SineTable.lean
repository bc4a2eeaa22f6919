import Mathlib.Analysis.SpecialFunctions.Exponential
import Mathlib.Analysis.SpecialFunctions.Trigonometric.Basic

/-!
# Sines of whole numbers in fixed-point arithmetic

The point of the unit circle at `k + 1` radians is computed by turning the point before it by
one radian, in whole numbers scaled by `2 ^ 80`. A turn keeps distances, so that an error
only grows by what one turn adds. `floor_sine` tells from two comparisons of whole numbers what
the integer part of a multiple of the sine is.
-/

namespace SineTable

open Complex

/-- The complex number of two scaled coordinates. -/
noncomputable def point (w : Int × Int) : ℂ := w.1 + w.2 * I

/-- The cosine and the sine of 1, scaled by `2 ^ 80`. -/
def unit : Int × Int := (653185407961314874212934, 1017275999990815458903785)

/-- A turn by one radian. -/
def turn (w : Int × Int) : Int × Int :=
  ((w.1 * unit.1 - w.2 * unit.2) / 2 ^ 80, (w.1 * unit.2 + w.2 * unit.1) / 2 ^ 80)

/-- The cosine and the sine of `k + 1`, scaled by `2 ^ 80`. -/
def approx : Nat → Int × Int
  | 0 => unit
  | k + 1 => turn (approx k)

theorem norm_point_le (x y : ℝ) : ‖(x : ℂ) + y * I‖ ≤ |x| + |y| := by
  have hadd := norm_add_le (x : ℂ) (y * I)
  rwa [norm_mul, norm_I, mul_one, norm_real, norm_real, Real.norm_eq_abs, Real.norm_eq_abs] at hadd

/-- The sum of the first 26 terms of the exponential series. -/
theorem sum_series : ∑ m ∈ Finset.range 26, (I ^ m / (m.factorial : ℂ)) =
    (8380742553216779108641825 / 15511210043330985984000000 : ℝ) +
      (13052233190723859821607001 / 15511210043330985984000000 : ℝ) * I := by
  simp only [Finset.sum_range_succ, Finset.sum_range_zero, Nat.factorial]
  norm_num [pow_succ, I_mul_I]
  ring

/-- One radian is met up to the scaled error of the series and of its coordinates. -/
theorem norm_unit_sub_le : ‖point unit - 2 ^ 80 * exp I‖ ≤ 3 := by
  obtain ⟨z, hz⟩ : ∃ z, z = ∑ m ∈ Finset.range 26, (I ^ m / (m.factorial : ℂ)) := ⟨_, rfl⟩
  have hseries : ‖exp I - z‖ ≤ 1 / 2 ^ 80 := by
    have hexp := exp_bound (x := I) (by rw [norm_I]) (n := 26) (by decide)
    rw [norm_I, one_pow, one_mul, ← hz] at hexp
    refine hexp.trans ?_
    norm_num [Nat.factorial]
  have hcoordinates : ‖point unit - 2 ^ 80 * z‖ ≤ 2 := by
    have hsub : point unit - 2 ^ 80 * z =
        (653185407961314874212934 -
            2 ^ 80 * (8380742553216779108641825 / 15511210043330985984000000) : ℝ) +
          (1017275999990815458903785 -
            2 ^ 80 * (13052233190723859821607001 / 15511210043330985984000000) : ℝ) * I := by
      rw [hz, sum_series, point, unit]
      push_cast
      ring
    rw [hsub]
    refine (norm_point_le _ _).trans ?_
    norm_num [abs_le]
  calc
    ‖point unit - 2 ^ 80 * exp I‖
      = ‖(point unit - 2 ^ 80 * z) - 2 ^ 80 * (exp I - z)‖ := by ring_nf
    _ ≤ ‖point unit - 2 ^ 80 * z‖ + ‖2 ^ 80 * (exp I - z)‖ := norm_sub_le _ _
    _ ≤ 2 + 2 ^ 80 * (1 / 2 ^ 80) := by
        refine add_le_add hcoordinates ?_
        rw [norm_mul, norm_pow, Complex.norm_two]
        exact mul_le_mul_of_nonneg_left hseries (by positivity)
    _ ≤ 3 := by norm_num

/-- What the divisions of a turn cut off. -/
theorem norm_turn_sub_le (w : Int × Int) :
    ‖point (turn w) - point w * point unit / 2 ^ 80‖ ≤ 2 := by
  have hcut : ∀ a : Int, |((a / 2 ^ 80 : Int) : ℝ) - a / 2 ^ 80| ≤ 1 := by
    intro a
    obtain ⟨q, hq⟩ : ∃ q, q = a / 2 ^ 80 := ⟨_, rfl⟩
    have hlower : q * 2 ^ 80 ≤ a := hq ▸ Int.ediv_mul_le a (by decide)
    have hupper : a < (q + 1) * 2 ^ 80 := by
      rw [hq]
      exact Int.lt_ediv_add_one_mul_self a (by decide)
    have hlower' : (q : ℝ) * 2 ^ 80 ≤ a := by exact_mod_cast hlower
    have hupper' : (a : ℝ) < (q + 1) * 2 ^ 80 := by exact_mod_cast hupper
    have hle : (q : ℝ) ≤ a / 2 ^ 80 := (le_div_iff₀ (by positivity)).mpr hlower'
    have hlt : (a : ℝ) / 2 ^ 80 < q + 1 := (div_lt_iff₀ (by positivity)).mpr hupper'
    rw [← hq, abs_le]
    constructor <;> linarith
  have hsub : point (turn w) - point w * point unit / 2 ^ 80 =
      ((((w.1 * unit.1 - w.2 * unit.2) / 2 ^ 80 : Int) : ℝ) -
          ((w.1 * unit.1 - w.2 * unit.2 : Int) : ℝ) / 2 ^ 80 : ℝ) +
        ((((w.1 * unit.2 + w.2 * unit.1) / 2 ^ 80 : Int) : ℝ) -
          ((w.1 * unit.2 + w.2 * unit.1 : Int) : ℝ) / 2 ^ 80 : ℝ) * I := by
    rw [turn, point, point, point]
    push_cast
    linear_combination -(w.2 : ℂ) * unit.2 / 2 ^ 80 * I_sq
  rw [hsub]
  refine (norm_point_le _ _).trans ?_
  linarith [hcut (w.1 * unit.1 - w.2 * unit.2), hcut (w.1 * unit.2 + w.2 * unit.1)]

/-- The error grows by at most eight a turn. -/
theorem norm_approx_sub_le {k : Nat} (small : k ≤ 2 ^ 64) :
    ‖point (approx k) - 2 ^ 80 * exp ((k + 1 : Nat) * I)‖ ≤ 8 * (k + 1) := by
  induction k with
  | zero =>
      rw [approx, Nat.cast_one, one_mul]
      exact norm_unit_sub_le.trans (by norm_num)
  | succ k ih =>
      have herror := ih (Nat.le_of_succ_le small)
      have hsmall : (k : ℝ) + 1 ≤ 2 ^ 64 := by exact_mod_cast small
      obtain ⟨w, hw⟩ : ∃ w, w = point (approx k) := ⟨_, rfl⟩
      obtain ⟨z, hz⟩ : ∃ z, z = exp ((k + 1 : Nat) * I) := ⟨_, rfl⟩
      have hunit : ‖z‖ = 1 := by rw [hz]; exact_mod_cast norm_exp_ofReal_mul_I (k + 1 : Nat)
      have hunit1 : ‖exp I‖ = 1 := by simpa using norm_exp_ofReal_mul_I 1
      have hnext : exp ((k + 1 + 1 : Nat) * I) = z * exp I := by
        rw [hz, ← exp_add]
        congr 1
        push_cast
        ring
      rw [← hw, ← hz] at herror
      have hradius : ‖w‖ ≤ 2 ^ 81 := by
        have htriangle := norm_add_le (w - 2 ^ 80 * z) (2 ^ 80 * z)
        rw [sub_add_cancel, norm_mul, norm_pow, Complex.norm_two, hunit] at htriangle
        linarith
      have hsplit : point (turn (approx k)) - 2 ^ 80 * (z * exp I) =
          (point (turn (approx k)) - w * point unit / 2 ^ 80) +
            (w / 2 ^ 80 * (point unit - 2 ^ 80 * exp I) + (w - 2 ^ 80 * z) * exp I) := by
        ring
      have hscaled : ‖w / 2 ^ 80 * (point unit - 2 ^ 80 * exp I)‖ ≤ 2 * 3 := by
        rw [norm_mul, norm_div, norm_pow, Complex.norm_two]
        refine mul_le_mul ?_ norm_unit_sub_le (norm_nonneg _) (by norm_num)
        rw [div_le_iff₀ (by positivity)]
        linarith
      have hturned : ‖(w - 2 ^ 80 * z) * exp I‖ ≤ 8 * (k + 1) := by
        rwa [norm_mul, hunit1, mul_one]
      have hcut : ‖point (turn (approx k)) - w * point unit / 2 ^ 80‖ ≤ 2 := by
        rw [hw]
        exact norm_turn_sub_le (approx k)
      rw [approx, hnext, hsplit]
      refine (norm_add_le _ _).trans ?_
      refine (add_le_add hcut ((norm_add_le _ _).trans (add_le_add hscaled hturned))).trans ?_
      rw [Nat.cast_succ]
      linarith only []

/-- The scaled coordinate, up to the error of the turns before it, decides what the integer
part of a multiple of the sine is. -/
theorem floor_sine {k n : Nat} (small : k ≤ 2 ^ 64)
    (lower : (n : Int) * 2 ^ 48 ≤ |(approx k).2| - 8 * (k + 1))
    (upper : |(approx k).2| + 8 * (k + 1) < (n + 1) * 2 ^ 48) :
    ⌊2 ^ 32 * |Real.sin (k + 1)|⌋₊ = n := by
  obtain ⟨y, hy⟩ : ∃ y, y = (approx k).2 := ⟨_, rfl⟩
  have herror : |(y : ℝ) - 2 ^ 80 * Real.sin (k + 1)| ≤ 8 * ((k : ℝ) + 1) := by
    have him := (abs_im_le_norm _).trans (norm_approx_sub_le small)
    have hpoint : (point (approx k)).im = y := by simp [point, hy]
    have hexp : (2 ^ 80 * exp ((k + 1 : Nat) * I)).im = 2 ^ 80 * Real.sin (k + 1) := by
      have hpow : (2 ^ 80 : ℂ) = ((2 ^ 80 : ℝ) : ℂ) := by push_cast; rfl
      have hcast : (((k + 1 : Nat) : ℂ)) = ((k + 1 : ℝ) : ℂ) := by push_cast; rfl
      rw [hpow, im_ofReal_mul, hcast, exp_ofReal_mul_I_im]
    rwa [sub_im, hpoint, hexp] at him
  rw [← hy] at lower upper
  have hlower : (n : ℝ) * 2 ^ 48 ≤ |(y : ℝ)| - 8 * (k + 1) := by exact_mod_cast lower
  have hupper : |(y : ℝ)| + 8 * (k + 1) < (n + 1) * 2 ^ 48 := by exact_mod_cast upper
  have habs := abs_sub_abs_le_abs_sub (y : ℝ) (2 ^ 80 * Real.sin (k + 1))
  have habs' := abs_sub_abs_le_abs_sub (2 ^ 80 * Real.sin (k + 1)) (y : ℝ)
  rw [abs_sub_comm (2 ^ 80 * Real.sin (k + 1))] at habs'
  rw [abs_mul, abs_of_pos (show (0 : ℝ) < 2 ^ 80 by positivity)] at habs habs'
  rw [Nat.floor_eq_iff (by positivity)]
  constructor <;> linarith

end SineTable
