import Mathlib.Algebra.Order.Field.Rat
import Mathlib.Tactic.Linarith
import Coping.Ping.Statistics

/-!
# The summaries

The percentages and averages that `status` and `finish` of `ping_common.c`,
`ping_print_finish` and `ping_print_statistics` of `ping_output.c` and
`coping_add_context` of `coping_ai.c` compute, each for itself, from the same
counters. `ping_print_finish` prints a rational number rounded to a `float`; here
it is the number itself.
-/

namespace Coping

open CInt

/-- `loss` of `status`, an integer percentage. -/
def statusLoss (rts : PingRts) : Int :=
  if rts.ntransmitted ≠ 0 then
    toInt32 ((((rts.ntransmitted : Int) - rts.nreceived) * 100).tdiv rts.ntransmitted)
  else 0

/-- The percentage that `ping_print_finish` prints once something was sent. -/
def finishLoss (rts : PingRts) : Option ℚ :=
  if rts.ntransmitted ≠ 0 then
    some (((rts.ntransmitted : ℚ) - rts.nreceived) * 100 / rts.ntransmitted)
  else none

/-- `loss_pct` of `coping_add_context`. -/
def contextLoss (ntransmitted nreceived : Int) : Int :=
  let loss := ntransmitted - nreceived
  if ntransmitted > 0 then toInt32 ((loss * 100).tdiv ntransmitted) else 100

/-- `tmavg` of `ping_print_statistics`. -/
def statisticsAverage (rts : PingRts) : Int :=
  let total : Int := rts.nreceived + rts.nrepeats
  rts.tsum.tdiv total

/-- `tavg_us` of `coping_add_context`. -/
def contextAverage (nreceived tsum : Int) : Int :=
  if nreceived > 0 then tsum.tdiv nreceived else 0

/-- The arguments that `finish` passes to `coping_add_context`. -/
structure ContextArguments where
  hostname : List UInt8
  ntransmitted : Int
  nreceived : Int
  tmin : Int
  tmax : Int
  tsum : Int

def contextArguments (rts : PingRts) : ContextArguments where
  hostname := rts.hostname
  ntransmitted := rts.ntransmitted
  nreceived := rts.nreceived
  tmin := rts.tmin
  tmax := rts.tmax
  tsum := rts.tsum

/-- The return value of `finish`. -/
def finishStatus (rts : PingRts) : Bool :=
  rts.nreceived = 0 || (rts.deadline ≠ 0 && rts.nreceived < rts.npackets)

/-! ## Percentages -/

/-- All three percentages of lost packets are percentages. -/
structure LossSound (rts : PingRts) : Prop where
  status : 0 ≤ statusLoss rts ∧ statusLoss rts ≤ 100
  finish : ∀ loss ∈ finishLoss rts, 0 ≤ loss ∧ loss ≤ 100
  context : 0 ≤ contextLoss (contextArguments rts).ntransmitted (contextArguments rts).nreceived ∧
    contextLoss (contextArguments rts).ntransmitted (contextArguments rts).nreceived ≤ 100

/-- An integer percentage of a part of a whole. -/
theorem percentage_bounds {sent lost : Int} (sends : 0 < sent) (lower : 0 ≤ lost)
    (upper : lost ≤ sent) :
    0 ≤ toInt32 ((lost * 100).tdiv sent) ∧ toInt32 ((lost * 100).tdiv sent) ≤ 100 := by
  have hnonneg : 0 ≤ (lost * 100).tdiv sent := Int.tdiv_nonneg (by omega) sends.le
  have hle : (lost * 100).tdiv sent ≤ 100 := by
    rw [Int.tdiv_eq_ediv_of_nonneg (by omega)]
    exact Int.ediv_le_of_le_mul sends (by omega)
  rw [toInt32_of_range (by omega) (by unfold intMax; omega)]
  exact ⟨hnonneg, hle⟩

theorem LossSound.of_le {rts : PingRts} (h : rts.nreceived ≤ rts.ntransmitted) :
    LossSound rts := by
  refine ⟨?_, ?_, ?_⟩
  · simp only [statusLoss]
    split
    · exact percentage_bounds (by omega) (by omega) (by omega)
    · exact ⟨le_rfl, by decide⟩
  · intro loss hloss
    simp only [finishLoss] at hloss
    split at hloss
    · next hsent =>
        cases hloss
        have hpos : (0 : ℚ) < rts.ntransmitted := Nat.cast_pos.mpr (Nat.pos_of_ne_zero hsent)
        have hle : (rts.nreceived : ℚ) ≤ rts.ntransmitted := Nat.cast_le.mpr h
        have hzero : (0 : ℚ) ≤ rts.nreceived := Nat.cast_nonneg _
        constructor
        · exact div_nonneg (mul_nonneg (sub_nonneg.mpr hle) (by norm_num)) hpos.le
        · rw [div_le_iff₀ hpos]
          linarith
    · cases hloss
  · change 0 ≤ contextLoss rts.ntransmitted rts.nreceived ∧
      contextLoss rts.ntransmitted rts.nreceived ≤ 100
    simp only [contextLoss]
    split
    · exact percentage_bounds (by omega) (by omega) (by omega)
    · exact ⟨by decide, le_rfl⟩

end Coping
