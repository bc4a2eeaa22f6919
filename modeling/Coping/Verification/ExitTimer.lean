import Coping.Ping.SendLoop
import Coping.Ping.Setup

/-!
# The wait for the last replies

Behind the last probe `__schedule_exit` starts a timer for as long as a reply may take. The
interval is compared as `unsigned long` and multiplied as `int`: with more than thirty-five
minutes between the probes the product is out of range, and the timer is one for half a million
years.
-/

namespace Coping.ExitTimer

open CInt

/-- What the options and the replies can come to. -/
structure Possible (rts : PingRts) : Prop where
  preload : 1 ≤ rts.preload
  interval : 0 ≤ rts.interval
  limited : rts.interval < intMax / rts.preload
  tmax : 0 ≤ rts.tmax ∧ rts.tmax ≤ 2147999999
  lingertime : rts.lingertime < 2 ^ 32

/-- The microseconds that are to be waited. -/
def due (rts : PingRts) : Int :=
  if rts.nreceived ≠ 0 then max (2 * rts.tmax) (1000 * rts.interval) else rts.lingertime

/-- A call of `__schedule_exit`: the state that it finds, and for how long its caller would
wait. -/
structure ExitCall where
  rts : PingRts
  next : Int

/-- What the calls return, and the timers that they start. -/
def exitCalls (waittime : Int) : List ExitCall → List (Int × Option Timeval)
  | [] => []
  | c :: calls =>
      let exit := exitScheduled c.rts waittime c.next
      (exit.1, exitTimer c.rts waittime) :: exitCalls exit.2 calls

/-- The first call finds the time that is due and starts a timer for it, and no later call
does more. -/
structure Timely (rts : PingRts) : Prop where
  inRange : ∀ product, exitProduct rts = some product → InInt product
  waits : exitWaittime rts = due rts
  starts : ∃ timer, exitTimer rts 0 = some timer ∧
    timer.tvSec * 1000000 + timer.tvUsec = due rts ∧ 0 ≤ timer.tvUsec ∧ timer.tvUsec < 1000000
  returns : ∀ next, InInt next → exitScheduled rts 0 next = (max next (due rts / 1000), due rts)
  later : due rts ≠ 0 → ∀ calls, exitCalls (due rts) calls = calls.map fun c => (c.next, none)

/-! ## The intervals that are accepted -/

section Accepted

variable {rts rts' : PingRts}

theorem parseArg_bounds {arg : Arg} (h : parseArg rts arg = some rts')
    (bounds : 0 ≤ rts.interval ∧ 1 ≤ rts.preload) : 0 ≤ rts'.interval ∧ 1 ≤ rts'.preload := by
  cases arg with
  | interval ms =>
      rw [parseArg] at h
      split at h
      · cases h
      next hrange =>
        cases h
        exact ⟨Int.not_lt.mp fun hlt => hrange (.inl hlt), bounds.2⟩
  | preload n =>
      rw [parseArg] at h
      split at h
      · cases h
      next hrange =>
        split at h
        · cases h
        · cases h
          exact ⟨bounds.1, Int.not_lt.mp fun hlt => hrange (.inl hlt)⟩
  | flood | adaptive | broadcast =>
      cases h
      exact bounds

theorem options_bounds {settings : PingRts} {args : List Arg}
    (h : options.final (mainDefaults settings) args = some rts) :
    0 ≤ rts.interval ∧ 1 ≤ rts.preload := by
  have hrun : options.Always (fun rts => 0 ≤ rts.interval ∧ 1 ≤ rts.preload)
      (mainDefaults settings) args := by
    refine Machine.Always.of_invariant (G := fun _ _ => True) ?_ ?_
      (Machine.guarded_of_forall fun _ _ => trivial)
    · exact ⟨(by decide : (0 : Int) ≤ 1000), Int.le_refl 1⟩
    · exact fun s arg t bounds _ hstep => parseArg_bounds hstep bounds
  exact hrun.final h

theorem setup_bounds (h : setup rts = some rts') (bounds : 0 ≤ rts.interval ∧ 1 ≤ rts.preload) :
    1 ≤ rts'.preload ∧ 0 ≤ rts'.interval ∧ rts'.interval < intMax / rts'.preload := by
  obtain ⟨interval, hzero | hkept, -, hlimit, rfl⟩ := setup_cases h
  · exact ⟨bounds.2, Int.le_of_eq hzero.symm, hlimit⟩
  · exact ⟨bounds.2, le_of_le_of_eq bounds.1 hkept.symm, hlimit⟩

/-- Before the first reply, the main loop is entered in a state that is possible. -/
theorem Possible.of_accepted {family : Family} {kernel : Kernel} {settings : PingRts}
    {args : List Arg} {d : Destination} (h : accepted family kernel settings args d = some rts)
    (tmax : 0 ≤ rts.tmax ∧ rts.tmax ≤ 2147999999) (lingertime : rts.lingertime < 2 ^ 32) :
    Possible rts := by
  obtain ⟨parsed, hparsed, hrest⟩ := Option.bind_eq_some_iff.mp h
  obtain ⟨checked, hchecked, hsetup⟩ := Option.bind_eq_some_iff.mp hrest
  have hinterval := Family.run_field (·.interval) (fun _ _ => rfl) (fun _ _ => rfl)
    (fun _ _ => rfl) hchecked
  have hpreload := Family.run_field (·.preload) (fun _ _ => rfl) (fun _ _ => rfl)
    (fun _ _ => rfl) hchecked
  have hbounds : 0 ≤ checked.interval ∧ 1 ≤ checked.preload := by
    rw [hinterval, hpreload]
    exact options_bounds hparsed
  obtain ⟨hpreload, hnonneg, hlimit⟩ := setup_bounds hsetup hbounds
  exact ⟨hpreload, hnonneg, hlimit, tmax, lingertime⟩

end Accepted

/-! ## The later calls -/

theorem exitScheduled_started {waittime : Int} (started : waittime ≠ 0) (rts : PingRts)
    (next : Int) : exitScheduled rts waittime next = (next, waittime) := if_pos started

theorem exitTimer_started {waittime : Int} (started : waittime ≠ 0) (rts : PingRts) :
    exitTimer rts waittime = none := if_pos started

theorem exitCalls_started {waittime : Int} (started : waittime ≠ 0) (calls : List ExitCall) :
    exitCalls waittime calls = calls.map fun c => (c.next, none) := by
  induction calls with
  | nil => rfl
  | cons c calls ih =>
      rw [exitCalls, exitScheduled_started started, exitTimer_started started, ih, List.map_cons]

/-! ## The first call -/

section First

variable {rts : PingRts}

theorem Possible.interval_lt (h : Possible rts) : rts.interval < 2147483647 := by
  have hdiv : intMax / rts.preload ≤ intMax :=
    Int.ediv_le_self _ (by decide)
  exact lt_of_lt_of_le h.limited hdiv

/-- The comparison is the one of the two numbers. -/
theorem Possible.compare_iff (h : Possible rts) :
    toUInt64 (2 * rts.tmax) < toUInt64 (1000 * toUInt64 rts.interval) ↔
      2 * rts.tmax < 1000 * rts.interval := by
  have hinterval := h.interval
  have hlt := h.interval_lt
  obtain ⟨hnonneg, hle⟩ := h.tmax
  simp only [toUInt64]
  omega

theorem Possible.due_nonneg (h : Possible rts) : 0 ≤ due rts := by
  obtain ⟨hnonneg, hle⟩ := h.tmax
  rw [due]
  split
  · exact le_max_of_le_left (by omega)
  · omega

theorem Possible.due_div (h : Possible rts) : due rts / 1000 ≤ intMax := by
  have hinterval := h.interval_lt
  have hlinger := h.lingertime
  obtain ⟨hnonneg, hle⟩ := h.tmax
  simp only [due, intMax]
  split
  · rcases max_cases (2 * rts.tmax) (1000 * rts.interval) with ⟨hmax, -⟩ | ⟨hmax, -⟩ <;>
    · rw [hmax]
      omega
  · omega

/-- A product that is out of range comes out too small or, where it is negative as `int`, too
large. -/
theorem toUInt64_toInt32_eq_iff {x : Int} (nonneg : 0 ≤ x) (small : x < 2 ^ 63) :
    toUInt64 (toInt32 x) = x ↔ x ≤ intMax := by
  constructor
  · intro heq
    have hrange : -2147483648 ≤ toInt32 x ∧ toInt32 x ≤ 2147483647 := by
      simp only [toInt32]
      omega
    simp only [toUInt64] at heq
    simp only [intMax]
    omega
  · intro hle
    rw [toInt32_of_range (by omega) hle]
    simp only [toUInt64]
    omega

/-- Where the product is needed, it is right if it is in range. -/
theorem Possible.waits_iff (h : Possible rts) :
    exitWaittime rts = due rts ↔
      rts.nreceived = 0 ∨ 1000 * rts.interval ≤ 2 * rts.tmax ∨ rts.interval ≤ 2147483 := by
  have hinterval := h.interval
  have hlt := h.interval_lt
  obtain ⟨hnonneg, hle⟩ := h.tmax
  rw [exitWaittime, due]
  by_cases hreceived : rts.nreceived = 0
  · simp [hreceived]
  · rw [if_pos hreceived, if_pos hreceived]
    dsimp only
    by_cases hless : 2 * rts.tmax < 1000 * rts.interval
    · rw [if_pos (h.compare_iff.mpr hless), max_eq_right (by omega),
        toUInt64_toInt32_eq_iff (by omega) (by omega), intMax]
      omega
    · rw [if_neg (mt h.compare_iff.mp hless), max_eq_left (by omega)]
      simp only [toUInt64]
      omega

theorem Possible.inRange_iff (h : Possible rts) :
    (∀ product, exitProduct rts = some product → InInt product) ↔
      rts.nreceived = 0 ∨ 1000 * rts.interval ≤ 2 * rts.tmax ∨ rts.interval ≤ 2147483 := by
  have hinterval := h.interval
  rw [exitProduct]
  simp only [InInt, intMax]
  split
  next hneeded =>
    rw [h.compare_iff] at hneeded
    constructor
    · intro hrange
      have := hrange _ rfl
      omega
    · rintro hsmall product ⟨⟩
      omega
  next hneeded =>
    rw [h.compare_iff] at hneeded
    constructor
    · intro _
      omega
    · intro _ product hnone
      cases hnone

theorem Possible.timely (h : Possible rts)
    (fits : rts.nreceived = 0 ∨ 1000 * rts.interval ≤ 2 * rts.tmax ∨ rts.interval ≤ 2147483) :
    Timely rts := by
  have hwaits := h.waits_iff.mpr fits
  have hdue := h.due_nonneg
  have hdiv := h.due_div
  refine ⟨h.inRange_iff.mpr fits, hwaits, ⟨_, rfl, ?_, ?_, ?_⟩, ?_, exitCalls_started⟩
  · rw [hwaits]
    exact Int.ediv_mul_add_emod _ _
  · exact Int.emod_nonneg _ (by decide)
  · exact Int.emod_lt_of_pos _ (by decide)
  · intro next hnext
    have hconverted : toInt32 (due rts / 1000) = due rts / 1000 :=
      toInt32_of_range (by omega) hdiv
    rw [exitScheduled, if_neg (by decide), hwaits]
    dsimp only
    split
    next hless => rw [hconverted, max_eq_right (by omega)]
    next hless => rw [max_eq_left (by omega)]

end First

/-- The timer is right exactly when the product in `int` is not needed or in range. -/
theorem exit_timely (rts : PingRts) (possible : Possible rts) :
    Timely rts ↔
      rts.nreceived = 0 ∨ 1000 * rts.interval ≤ 2 * rts.tmax ∨ rts.interval ≤ 2147483 :=
  ⟨fun h => possible.waits_iff.mp h.waits, possible.timely⟩

/-- One reply to the probes of `ping -i 2147.483`, the longest interval that is right. -/
theorem exit_timely_longest :
    Possible { nreceived := 1, interval := 2147483, tmax := 1000 } ∧
      (Timely { nreceived := 1, interval := 2147483, tmax := 1000 } ↔
        1 = 0 ∨ 1000 * (2147483 : Int) ≤ 2 * 1000 ∨ (2147483 : Int) ≤ 2147483) := by
  have hpossible : Possible { nreceived := 1, interval := 2147483, tmax := 1000 } :=
    ⟨by decide, by decide, by decide, by decide, by decide⟩
  exact ⟨hpossible, exit_timely _ hpossible⟩

/-- One reply to the probes of `ping -i 3000`. -/
theorem exit_untimely :
    ¬Timely { nreceived := 1, interval := 3000000, tmax := 1000 } := by
  intro h
  exact absurd h.waits (by decide)

end Coping.ExitTimer
