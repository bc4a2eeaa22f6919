import Coping.Library.Mean
import Coping.Ping.Finish
import Coping.Verification.Duplicates

/-!
# The average handed to the prompt

`ping_print_statistics` and `status` divide the sum of the round-trip times by the
number of replies that went into it, duplicates included. `coping_add_context`
divides the same sum by the number of first replies alone. The two agree when there
was no duplicate; with duplicates they agree only if what the first replies leave over
of the sum, in whole microseconds, is enough for every duplicate too.
-/

namespace Coping.Average

open Duplicates

/-- What `finish` prints and what it passes on are about the same average. -/
def AveragesAgree (es : List Event) (rts : PingRts) : Prop :=
  0 < rts.nreceived →
    contextAverage (contextArguments rts).nreceived (contextArguments rts).tsum =
        statisticsAverage rts ∧
      ((∀ r, .reply r ∈ es → TIMED_LEN ≤ r.cc) →
        (contextArguments rts).tmin ≤
            contextAverage (contextArguments rts).nreceived (contextArguments rts).tsum ∧
          contextAverage (contextArguments rts).nreceived (contextArguments rts).tsum ≤
            (contextArguments rts).tmax)

/-- The state at the end of a run with timing on. -/
def endOf (options : PingRts) (es : List Event) : PingRts :=
  (es.foldl step { rts := PingRts.start { options with timing := true } }).rts

/-! ## The sum and its bounds -/

/-- What the replies leave in the statistics. `timed` says that all of them carried
a timestamp. -/
structure Measured (timed : Prop) (rts : PingRts) : Prop where
  timing : rts.timing = true
  nonneg : 0 ≤ rts.tsum
  spread : timed → Spread (rts.nreceived + rts.nrepeats) rts.tmin rts.tmax rts.tsum

theorem Measured.init (timed : Prop) (options : PingRts) :
    Measured timed (PingRts.start { options with timing := true }) :=
  ⟨rfl, Int.le_refl 0, fun _ => Spread.empty _ _⟩

theorem Measured.reply {timed : Prop} {rts : PingRts} (h : Measured timed rts) (r : Reply)
    (stamped : timed → r.csfailed = false → TIMED_LEN ≤ r.cc) :
    Measured timed (gatherStatistics rts r) := by
  obtain ⟨hmin, hmax, hsum⟩ := times_eq.mp (times_gatherStatistics rts r)
  have htiming : (gatherStatistics rts r).timing = rts.timing :=
    gatherStatistics_field (·.timing) {} rts r fun _ _ => rfl
  refine ⟨htiming.trans h.timing, ?_, fun htimed => ?_⟩
  · rw [hsum]
    simp only [measured]
    split
    · exact add_nonneg h.nonneg (triptime_nonneg _ _)
    · exact h.nonneg
  · have hcount := gatherStatistics_replies rts r
    rw [hmin, hmax, hsum, hcount]
    simp only [measured]
    cases hbad : r.csfailed with
    | true => simpa [entered] using h.spread htimed
    | false =>
        rw [if_pos ⟨h.timing, stamped htimed hbad, rfl⟩]
        exact (h.spread htimed).insert _

theorem Measured.probe {timed : Prop} {rts : PingRts} (h : Measured timed rts)
    (family : Family) (now : Timeval) : Measured timed (family.sendProbe rts now).1 := by
  have hsame := family.sendProbe_field
    (fun rts => (rts.timing, rts.nreceived, rts.nrepeats, rts.tmin, rts.tmax, rts.tsum))
    (fun _ _ => rfl) (fun _ _ => rfl) (fun _ _ _ => rfl) rts now
  simp only [Prod.mk.injEq] at hsame
  obtain ⟨htiming, hreceived, hrepeats, hmin, hmax, hsum⟩ := hsame
  refine ⟨htiming.trans h.timing, ?_, fun htimed => ?_⟩
  · rw [hsum]
    exact h.nonneg
  · rw [hreceived, hrepeats, hmin, hmax, hsum]
    exact h.spread htimed

theorem Measured.step {timed : Prop} {s : Traffic} (h : Measured timed s.rts) (e : Event)
    (stamped : timed → ∀ r, e = .reply r → TIMED_LEN ≤ r.cc) :
    Measured timed (step s e).rts := by
  cases e with
  | probe family now => exact h.probe family now
  | advance => exact ⟨h.timing, h.nonneg, h.spread⟩
  | reply r => exact h.reply r fun htimed _ => stamped htimed r rfl

theorem Measured.run {timed : Prop} {s : Traffic} (h : Measured timed s.rts) (es : List Event)
    (stamped : timed → ∀ r, .reply r ∈ es → TIMED_LEN ≤ r.cc) :
    Measured timed (es.foldl Duplicates.step s).rts := by
  induction es generalizing s with
  | nil => exact h
  | cons e es ih =>
      refine ih (h.step e ?_) ?_
      · rintro htimed r rfl
        exact stamped htimed r List.mem_cons_self
      · exact fun htimed r hr => stamped htimed r (List.mem_cons_of_mem _ hr)

/-! ## What the events say -/

/-- The probes and replies of a run, the newest first, with the number of the last probe. -/
def logOf (ntransmitted : Nat) (log : List Entry) : List Event → List Entry
  | [] => log
  | .probe _ _ :: es => logOf ntransmitted (.probed (low16 (ntransmitted + 1)) :: log) es
  | .advance :: es => logOf (ntransmitted + 1) log es
  | .reply r :: es => logOf ntransmitted (.replied r.seq r.csfailed :: log) es

/-- The times of the good replies that are long enough to carry one. The clock may be read anew
once. -/
def timesOf (optLatency : Bool) : List Event → List Int
  | [] => []
  | .probe _ _ :: es => timesOf optLatency es
  | .advance :: es => timesOf optLatency es
  | .reply r :: es =>
      if r.cc ≥ TIMED_LEN then
        (if r.csfailed then [] else [triptime optLatency r]) ++
          timesOf (latencyAfter optLatency r) es
      else timesOf optLatency es

/-- The first good replies to the probes of a run. -/
def firsts (es : List Event) : Nat := tally .first (logOf 0 [] es)

/-- The other good replies. -/
def duplicates (es : List Event) : Nat := tally .repeated (logOf 0 [] es)

/-- The microseconds of all good replies. -/
def total (options : PingRts) (es : List Event) : Int := (timesOf options.optLatency es).sum

/-- Share the microseconds of all replies out among the first ones, a whole number to each. What is
left over is as much again for every duplicate. -/
def DuplicatesFit (options : PingRts) (es : List Event) : Prop :=
  0 < firsts es → duplicates es * (total options es / firsts es) ≤ total options es % firsts es

theorem log_run (s : Traffic) (es : List Event) :
    (es.foldl step s).log = logOf s.rts.ntransmitted s.log es := by
  induction es generalizing s with
  | nil => rfl
  | cons e es ih =>
      rw [List.foldl_cons, ih]
      cases e with
      | probe family now => exact congrArg (logOf · _ es) (family.sendProbe_ntransmitted s.rts now)
      | advance => rfl
      | reply r => exact congrArg (logOf · _ es) (gatherStatistics_ntransmitted s.rts r)

theorem optLatency_gatherTiming (rts : PingRts) (r : Reply) :
    (gatherTiming rts r).optLatency = latencyAfter rts.optLatency r := by
  simp only [gatherTiming]
  split
  · rfl
  split <;> rfl

theorem optLatency_gatherStatistics (rts : PingRts) (r : Reply) :
    (gatherStatistics rts r).optLatency =
      if rts.timing = true ∧ r.cc ≥ TIMED_LEN then latencyAfter rts.optLatency r
      else rts.optLatency := by
  have hacked : (if r.csfailed then countReceived rts
      else acknowledge (countReceived rts) r.seq).optLatency = rts.optLatency := by
    split <;> rfl
  have hreceived : (gatherStatistics rts r).optLatency = (receiveReply rts r).optLatency := by
    obtain ⟨-, hcase⟩ | ⟨-, -, hcase⟩ | ⟨-, -, hcase⟩ := gatherStatistics_cases rts r <;>
      rw [hcase] <;> rfl
  rw [hreceived, receiveReply]
  split
  · rw [optLatency_gatherTiming, hacked]
  · exact hacked

/-- The sum that is kept is the one of the times. -/
theorem tsum_run (s : Traffic) (es : List Event) (timing : s.rts.timing = true) :
    (es.foldl step s).rts.tsum = s.rts.tsum + (timesOf s.rts.optLatency es).sum := by
  induction es generalizing s with
  | nil => exact (Int.add_zero _).symm
  | cons e es ih =>
      rw [List.foldl_cons]
      cases e with
      | probe family now =>
          have hsame := family.sendProbe_field (fun rts => (rts.timing, rts.tsum, rts.optLatency))
            (fun _ _ => rfl) (fun _ _ => rfl) (fun _ _ _ => rfl) s.rts now
          simp only [Prod.mk.injEq] at hsame
          rw [ih (step s (.probe family now)) (hsame.1.trans timing)]
          change (family.sendProbe s.rts now).1.tsum +
            (timesOf (family.sendProbe s.rts now).1.optLatency es).sum = _
          rw [hsame.2.1, hsame.2.2]
          rfl
      | advance => exact ih (step s .advance) timing
      | reply r =>
          have htiming : (gatherStatistics s.rts r).timing = true :=
            (gatherStatistics_field (·.timing) {} s.rts r fun _ _ => rfl).trans timing
          have hsum := (times_eq.mp (times_gatherStatistics s.rts r)).2.2
          rw [ih (step s (.reply r)) htiming]
          change (gatherStatistics s.rts r).tsum +
            (timesOf (gatherStatistics s.rts r).optLatency es).sum = _
          rw [hsum, timesOf]
          by_cases hlong : r.cc ≥ TIMED_LEN
          · rw [optLatency_gatherStatistics, if_pos ⟨timing, hlong⟩, if_pos hlong]
            cases hbad : r.csfailed with
            | true =>
                have hnone : measured s.rts r = none :=
                  if_neg fun h => Bool.false_ne_true (h.2.2.symm.trans hbad)
                rw [hnone]
                rfl
            | false =>
                have hsome : measured s.rts r = some (triptime s.rts.optLatency r) :=
                  if_pos ⟨timing, hlong, hbad⟩
                rw [hsome, if_neg Bool.false_ne_true, List.sum_append, List.sum_singleton]
                exact Int.add_assoc _ _ _
          · have hnone : measured s.rts r = none := if_neg fun h => hlong h.2.1
            rw [optLatency_gatherStatistics, if_neg fun h => hlong h.2, if_neg hlong, hnone]
            rfl

/-- The averages agree at the end of a run exactly when the duplicates fit into what is left over
by the first replies. Without duplicates they do. -/
theorem averages_agree_iff (options : PingRts) (es : List Event) :
    AveragesAgree es (endOf options es) ↔ DuplicatesFit options es := by
  have hmeasured : Measured (∀ r, .reply r ∈ es → TIMED_LEN ≤ r.cc) (endOf options es) :=
    Measured.run (Measured.init _ options) es fun htimed => htimed
  have hkept : Kept (es.foldl step { rts := PingRts.start { options with timing := true } }) :=
    List.foldlRecOn es step (Kept.init { options with timing := true }) fun _ h e _ => h.step e
  have hlog := log_run { rts := PingRts.start { options with timing := true } } es
  have hfirsts : (endOf options es).nreceived = firsts es := by
    rw [endOf, hkept.nreceived, hlog]
    rfl
  have hduplicates : (endOf options es).nrepeats = duplicates es := by
    rw [endOf, hkept.nrepeats, hlog]
    rfl
  have htotal : (endOf options es).tsum = total options es := by
    rw [endOf, tsum_run _ es rfl]
    exact Int.zero_add _
  rw [DuplicatesFit, ← hfirsts, ← hduplicates, ← htotal]
  obtain ⟨rts, hrts⟩ : ∃ rts, rts = endOf options es := ⟨_, rfl⟩
  rw [← hrts] at hmeasured ⊢
  refine imp_congr_right ?_
  intro received
  have hpos : (0 : Int) < rts.nreceived := Int.natCast_pos.mpr received
  have hcontext : contextAverage (contextArguments rts).nreceived (contextArguments rts).tsum =
      rts.tsum / rts.nreceived := by
    change (if (rts.nreceived : Int) > 0 then _ else _) = _
    rw [if_pos hpos]
    exact Int.tdiv_eq_ediv_of_nonneg hmeasured.nonneg
  have hprinted : statisticsAverage rts = rts.tsum / (rts.nreceived + rts.nrepeats) :=
    Int.tdiv_eq_ediv_of_nonneg hmeasured.nonneg
  have hsame := Int.ediv_eq_ediv_add_iff hmeasured.nonneg hpos (Int.natCast_nonneg rts.nrepeats)
  rw [hcontext, hprinted, hsame]
  refine ⟨fun agree => agree.1, fun fits => ⟨fits, ?_⟩⟩
  intro htimed
  -- The mean of all replies is bounded by the extrema, and the averages are the same.
  have hmean := (hmeasured.spread htimed).mean (Nat.add_pos_left received _)
  rw [hsame.mpr fits]
  rwa [Nat.cast_add] at hmean

/-- One probe, answered after 1 ms and once more after 3 ms. -/
def answeredTwice : List Event :=
  [.reply { cc := 64, seq := 1, csfailed := false, tv := { tvUsec := 1000 } },
    .reply { cc := 64, seq := 1, csfailed := false, tv := { tvUsec := 3000 } }]

/-- The average printed is 2 ms, the one in the prompt is 4 ms, above the maximum. -/
theorem averages_differ_on_duplicate :
    statisticsAverage (endOf {} answeredTwice) = 2000 ∧
      contextAverage (contextArguments (endOf {} answeredTwice)).nreceived
        (contextArguments (endOf {} answeredTwice)).tsum = 4000 ∧
      ¬AveragesAgree answeredTwice (endOf {} answeredTwice) := by
  have hprinted : statisticsAverage (endOf {} answeredTwice) = 2000 := by decide +kernel
  have hcontext : contextAverage (contextArguments (endOf {} answeredTwice)).nreceived
      (contextArguments (endOf {} answeredTwice)).tsum = 4000 := by decide +kernel
  refine ⟨hprinted, hcontext, ?_⟩
  intro agree
  have hsame := (agree (by decide +kernel)).1
  rw [hprinted, hcontext] at hsame
  exact absurd hsame (by decide)

end Coping.Average
