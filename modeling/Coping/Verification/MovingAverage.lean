import Coping.Library.Smoothing
import Coping.Verification.StatisticsLine

/-!
# The moving average

`rtt` is eight times an average of the triptimes that were entered. The subtraction in its update
is unsigned, and rounds down before it subtracts; the average never leaves the extrema for all that.
-/

namespace Coping.MovingAverage

open CInt
open StatisticsLine (Tally machine)
open Smoothing (Between)

def start (options : PingRts) : Tally where
  rts := PingRts.start options

/-- The average, in microseconds. -/
def average (rts : PingRts) : Int := (rts.rtt / 8).toNat

/-- The next update is the one of unbounded integers. -/
def Exact (rts : PingRts) (time : Int) : Prop :=
  ((smoothedRtt rts.rtt time).toNat : Int) = Smoothing.next 8 rts.rtt.toNat time

structure Averaged (s : Tally) : Prop where
  between : s.times ≠ [] → s.rts.tmin ≤ average s.rts ∧ average s.rts ≤ s.rts.tmax
  constant : ∀ t, s.times ≠ [] → (∀ time ∈ s.times, time = t) → average s.rts = t
  exact : ∀ r time, measured s.rts r = some time → Exact s.rts time

/-! ## One update -/

theorem average_eq (rts : PingRts) : average rts = (rts.rtt.toNat : Int) / 8 := by
  rw [average, UInt64.toNat_div]
  rfl

/-- Nothing wraps around while the average is one of times that `gather_statistics` yields. -/
theorem exact_of_between {rts : PingRts} {lower upper time : Int}
    (h : Between 8 lower upper rts.rtt.toNat) (bounded : upper ≤ 2147999999)
    (nonneg : 0 ≤ time) (le : time ≤ 2147999999) : Exact rts time := by
  have hupper := h.upper
  rw [Exact, smoothedRtt_toNat (by omega) nonneg le, Smoothing.next]
  by_cases hnone : rts.rtt = 0
  · have hzero : (rts.rtt.toNat : Int) = 0 := congrArg (fun rtt => (rtt.toNat : Int)) hnone
    rw [if_pos hnone, if_pos hzero, mul_comm]
  · have hsome : (rts.rtt.toNat : Int) ≠ 0 := by
      intro hzero
      exact hnone (toNat_eq_zero.mp (Int.natCast_eq_zero.mp hzero))
    rw [if_neg hnone, if_neg hsome]

/-! ## Runs -/

/-- What is kept of the entered times. -/
structure Kept (s : Tally) : Prop where
  bounded : ∀ time ∈ s.times, 0 ≤ time ∧ time ≤ 2147999999
  empty : s.times = [] → s.rts.rtt = 0 ∧ s.rts.tmin = longMax ∧ s.rts.tmax = 0
  spread : s.times ≠ [] → Between 8 s.rts.tmin s.rts.tmax s.rts.rtt.toNat ∧
    s.rts.tmax ≤ 2147999999
  constant : ∀ t, s.times ≠ [] → (∀ time ∈ s.times, time = t) →
    (s.rts.rtt.toNat : Int) = 8 * t

theorem Kept.start (options : PingRts) : Kept (start options) where
  bounded := fun _ hmem => absurd hmem List.not_mem_nil
  empty := fun _ => ⟨rfl, rfl, rfl⟩
  spread := fun hsome => absurd rfl hsome
  constant := fun _ hsome => absurd rfl hsome

theorem measured_bounds {rts : PingRts} {r : Reply} {time : Int} (h : measured rts r = some time) :
    0 ≤ time ∧ time ≤ 2147999999 := by
  rw [measured] at h
  split at h
  · cases h
    exact ⟨triptime_nonneg _ r, triptime_le _ r⟩
  · cases h

theorem Kept.exact {s : Tally} (h : Kept s) {r : Reply} {time : Int}
    (hmeasured : measured s.rts r = some time) : Exact s.rts time := by
  obtain ⟨hnonneg, hle⟩ := measured_bounds hmeasured
  by_cases hnone : s.times = []
  · obtain ⟨hrtt, -⟩ := h.empty hnone
    have hzero : Between 8 0 0 s.rts.rtt.toNat := by
      rw [hrtt]
      exact ⟨by decide, by decide⟩
    exact exact_of_between hzero (by decide) hnonneg hle
  · obtain ⟨hbetween, hmax⟩ := h.spread hnone
    exact exact_of_between hbetween hmax hnonneg hle

theorem Kept.averaged {s : Tally} (h : Kept s) : Averaged s where
  between := by
    intro hsome
    rw [average_eq]
    exact (h.spread hsome).1.average (by decide)
  constant := by
    intro t hsome hsame
    rw [average_eq, h.constant t hsome hsame, Int.mul_ediv_cancel_left t (by decide)]
  exact := fun _ _ => h.exact

/-- A time that is entered is a sample of the average. -/
theorem Kept.enter {s : Tally} (h : Kept s) {r : Reply} {time : Int}
    (hmeasured : measured s.rts r = some time) : Kept (StatisticsLine.step s (.reply r)) := by
  obtain ⟨hnonneg, hle⟩ := measured_bounds hmeasured
  obtain ⟨hmin, hmax, -⟩ := times_eq.mp (times_gatherStatistics s.rts r)
  have hrtt : ((gatherStatistics s.rts r).rtt.toNat : Int) =
      Smoothing.next 8 s.rts.rtt.toNat time := by
    rw [gatherStatistics_rtt, hmeasured]
    exact h.exact hmeasured
  rw [hmeasured] at hmin hmax
  simp only [entered] at hmin hmax
  simp only [StatisticsLine.step, hmeasured, Option.toList_some, List.singleton_append]
  refine ⟨?_, fun hnil => absurd hnil (List.cons_ne_nil _ _), fun _ => ?_, ?_⟩
  · intro time' hmem
    rcases List.mem_cons.mp hmem with rfl | hmem
    · exact ⟨hnonneg, hle⟩
    · exact h.bounded time' hmem
  · dsimp only
    rw [hmin, hmax, hrtt]
    by_cases hnone : s.times = []
    · obtain ⟨hzero, hlongMax, hno⟩ := h.empty hnone
      rw [hzero, hlongMax, hno, min_eq_right (hle.trans (by decide)), max_eq_right hnonneg]
      exact ⟨Smoothing.between_single (by decide), hle⟩
    · obtain ⟨hbetween, hbound⟩ := h.spread hnone
      exact ⟨hbetween.next (by decide) time, max_le hbound hle⟩
  · intro t _ hsame
    dsimp only
    obtain rfl : time = t := hsame time List.mem_cons_self
    rw [hrtt]
    by_cases hnone : s.times = []
    · rw [(h.empty hnone).1]
      exact mul_comm time 8
    · rw [h.constant time hnone fun time' hmem => hsame time' (List.mem_cons_of_mem _ hmem)]
      exact Smoothing.next_constant 8 time (by decide)

/-- Any other reply leaves the average and the extrema. -/
theorem Kept.pass {s : Tally} (h : Kept s) {r : Reply} (hmeasured : measured s.rts r = none) :
    Kept (StatisticsLine.step s (.reply r)) := by
  obtain ⟨hmin, hmax, -⟩ := times_eq.mp (times_gatherStatistics s.rts r)
  have hrtt := gatherStatistics_rtt s.rts r
  rw [hmeasured] at hmin hmax hrtt
  simp only [StatisticsLine.step, hmeasured, Option.toList_none, List.nil_append]
  refine ⟨h.bounded, ?_, ?_, ?_⟩
  · dsimp only
    rw [hmin, hmax, hrtt]
    exact h.empty
  · dsimp only
    rw [hmin, hmax, hrtt]
    exact h.spread
  · dsimp only
    rw [hrtt]
    exact h.constant

theorem Kept.step {s : Tally} (h : Kept s) (e : Duplicates.Event) :
    Kept (StatisticsLine.step s e) := by
  cases e with
  | probe family now =>
      have hsame := family.sendProbe_field (fun rts => (rts.rtt, rts.tmin, rts.tmax))
        (fun _ _ => rfl) (fun _ _ => rfl) (fun _ _ _ => rfl) s.rts now
      simp only [Prod.mk.injEq] at hsame
      obtain ⟨hrtt, hmin, hmax⟩ := hsame
      simp only [StatisticsLine.step]
      refine ⟨h.bounded, ?_, ?_, ?_⟩
      · rw [hrtt, hmin, hmax]
        exact h.empty
      · rw [hrtt, hmin, hmax]
        exact h.spread
      · rw [hrtt]
        exact h.constant
  | advance => exact ⟨h.bounded, h.empty, h.spread, h.constant⟩
  | reply r =>
      cases hmeasured : measured s.rts r with
      | none => exact h.pass hmeasured
      | some time => exact h.enter hmeasured

/-- However probes and replies follow each other, the average stays between the extrema. -/
theorem rtt_averages (options : PingRts) (es : List Duplicates.Event) :
    machine.Always Averaged (start options) es := by
  have hkept : machine.Always Kept (MovingAverage.start options) es := by
    refine Machine.Always.of_invariant (Kept.start options) ?_ (Machine.guarded_of_forall
      (G := fun _ _ => True) fun _ _ => trivial)
    intro s e t h _ hstep
    cases hstep
    exact h.step e
  exact hkept.mono fun s h => h.averaged

end Coping.MovingAverage
