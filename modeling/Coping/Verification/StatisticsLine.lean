import Coping.Verification.Average

/-!
# The statistics line

`gather_statistics` counts every good reply, but enters a time only for one that is long enough for
a timestamp. As long as no good reply is shorter, the counters and the times are about the same
replies, and the average lies between the extrema.
-/

namespace Coping.StatisticsLine

open CInt

/-- The runtime state, and the times that were entered into it, newest first. -/
structure Tally where
  rts : PingRts
  times : List Int := []

def step (s : Tally) : Duplicates.Event → Tally
  | .probe family now => { s with rts := (family.sendProbe s.rts now).1 }
  | .advance => { s with rts := advanceNtransmitted s.rts }
  | .reply r =>
      { rts := gatherStatistics s.rts r, times := (measured s.rts r).toList ++ s.times }

def machine : Machine Tally Duplicates.Event := Machine.ofTotal step

def start (options : PingRts) : Tally where
  rts := PingRts.start { options with timing := true }

/-- The line is about measured times: the least one is one of them, and the average is between the
extrema. -/
def Consistent (s : Tally) : Prop :=
  0 < s.rts.nreceived →
    s.rts.tmin ≤ statisticsAverage s.rts ∧ statisticsAverage s.rts ≤ s.rts.tmax ∧
      s.rts.tmin ∈ s.times ∧ s.rts.tmin ≠ longMax

instance (s : Tally) : Decidable (Consistent s) := inferInstanceAs (Decidable (_ → _))

/-- A good reply is long enough for a timestamp. -/
def Stamped (_ : Tally) : Duplicates.Event → Prop
  | .reply r => r.csfailed = false → TIMED_LEN ≤ r.cc
  | _ => True

instance (s : Tally) (e : Duplicates.Event) : Decidable (Stamped s e) := by
  cases e <;> unfold Stamped <;> infer_instance

/-! ## Runs -/

/-- The counters are about the entered times. -/
structure Recorded (s : Tally) : Prop where
  measured : Average.Measured True s.rts
  small : ∀ time ∈ s.times, time < longMax
  least : s.rts.tmin ∈ s.times ∨
    s.rts.nreceived + s.rts.nrepeats = 0 ∧ s.rts.tmin = longMax

theorem Recorded.start (options : PingRts) : Recorded (start options) :=
  ⟨Average.Measured.init True options, fun _ hmem => absurd hmem List.not_mem_nil,
    .inr ⟨rfl, rfl⟩⟩

theorem Recorded.consistent {s : Tally} (h : Recorded s) : Consistent s := by
  intro hreceived
  have hcount : 0 < s.rts.nreceived + s.rts.nrepeats := Nat.add_pos_left hreceived _
  have hmean := (h.measured.spread trivial).mean hcount
  have haverage : statisticsAverage s.rts =
      s.rts.tsum / (s.rts.nreceived + s.rts.nrepeats : Nat) := by
    rw [Nat.cast_add]
    exact Int.tdiv_eq_ediv_of_nonneg h.measured.nonneg
  have hleast : s.rts.tmin ∈ s.times := h.least.resolve_right fun hnone => by omega
  rw [haverage]
  exact ⟨hmean.1, hmean.2, hleast, (h.small _ hleast).ne⟩

/-- A good reply enters its time and is counted; another one does neither. -/
theorem Recorded.reply {s : Tally} (h : Recorded s) (r : Reply)
    (stamped : r.csfailed = false → TIMED_LEN ≤ r.cc) : Recorded (step s (.reply r)) := by
  obtain ⟨hmin, -, -⟩ := times_eq.mp (times_gatherStatistics s.rts r)
  have hmeasured := h.measured.reply r fun _ => stamped
  have hcount := gatherStatistics_replies s.rts r
  cases hbad : r.csfailed with
  | true =>
      have hnone : Coping.measured s.rts r = none := by
        rw [Coping.measured, hbad, if_neg fun h => absurd h.2.2 (by decide)]
      rw [hnone] at hmin
      rw [hbad] at hcount
      refine ⟨hmeasured, ?_, ?_⟩
      · simp only [StatisticsLine.step, hnone]
        exact h.small
      · simp only [StatisticsLine.step, hnone]
        rw [hmin]
        exact h.least.imp_right fun hunused => ⟨hcount.trans hunused.1, hunused.2⟩
  | false =>
      have htime : Coping.measured s.rts r = some (triptime s.rts.optLatency r) :=
        if_pos ⟨h.measured.timing, stamped hbad, hbad⟩
      have hlt : triptime s.rts.optLatency r < longMax :=
        Int.lt_of_le_of_lt (triptime_le s.rts.optLatency r) (by decide)
      rw [htime] at hmin
      refine ⟨hmeasured, ?_, ?_⟩
      · simp only [StatisticsLine.step, htime]
        intro time hmem
        rcases List.mem_cons.mp hmem with rfl | hmem
        · exact hlt
        · exact h.small time hmem
      · left
        simp only [StatisticsLine.step, htime]
        rw [hmin]
        change min s.rts.tmin _ ∈ _ :: s.times
        rcases h.least with hleast | ⟨-, hinitial⟩
        · rcases min_choice s.rts.tmin (triptime s.rts.optLatency r) with hchoice | hchoice
          · rw [hchoice]
            exact List.mem_cons_of_mem _ hleast
          · rw [hchoice]
            exact List.mem_cons_self
        · rw [hinitial, min_eq_right hlt.le]
          exact List.mem_cons_self

theorem Recorded.probe {s : Tally} (h : Recorded s) (family : Family) (now : Timeval) :
    Recorded (step s (.probe family now)) := by
  have hsame := family.sendProbe_field (fun rts => (rts.nreceived, rts.nrepeats, rts.tmin))
    (fun _ _ => rfl) (fun _ _ => rfl) (fun _ _ _ => rfl) s.rts now
  simp only [Prod.mk.injEq] at hsame
  obtain ⟨hreceived, hrepeats, hmin⟩ := hsame
  refine ⟨h.measured.probe family now, h.small, ?_⟩
  simp only [StatisticsLine.step, hreceived, hrepeats, hmin]
  exact h.least

theorem Recorded.step {s : Tally} (h : Recorded s) {e : Duplicates.Event} (stamped : Stamped s e) :
    Recorded (step s e) := by
  cases e with
  | probe family now => exact h.probe family now
  | advance => exact ⟨⟨h.measured.timing, h.measured.nonneg, h.measured.spread⟩, h.small, h.least⟩
  | reply r => exact h.reply r stamped

/-- As long as no good reply is too short for a timestamp, the line is about measured times. -/
theorem statistics_consistent (options : PingRts) (es : List Duplicates.Event)
    (stamped : machine.Guarded Stamped (start options) es) :
    machine.Always Consistent (start options) es := by
  have hrecorded : machine.Always Recorded (StatisticsLine.start options) es := by
    refine Machine.Always.of_invariant (Recorded.start options) ?_ stamped
    intro s e t h hstamped hstep
    cases hstep
    exact h.step hstamped
  exact hrecorded.mono fun s h => h.consistent

/-- A reply after 1 ms, and one with a wrong checksum and nothing else. -/
def timedAndCorrupted : List Duplicates.Event :=
  [.reply { cc := 64, seq := 1, csfailed := false, tv := { tvUsec := 1000 } },
    .reply { cc := 8, seq := 2, csfailed := true }]

theorem statistics_consistent_timed :
    machine.Always Consistent (start {}) timedAndCorrupted := by
  have hguarded : machine.Guarded Stamped (start {}) timedAndCorrupted := by
    refine ⟨fun _ => by decide, ?_⟩
    intro t _
    exact ⟨fun hgood => absurd hgood (by decide), fun _ _ => trivial⟩
  exact statistics_consistent {} timedAndCorrupted hguarded

/-- A good reply that was cut off behind its header is counted, and no time is known. -/
theorem statistics_of_bare_reply :
    ¬∀ (options : PingRts) (es : List Duplicates.Event),
      (∀ r, .reply r ∈ es → 8 ≤ r.cc) → machine.Always Consistent (start options) es := by
  intro always
  have hbare := always {} [.reply { cc := 8, seq := 1, csfailed := false }] fun r hr => by
    rw [Duplicates.Event.reply.inj (List.mem_singleton.mp hr)]
  have hlast := hbare.2 _ rfl
  exact absurd (hlast (by decide +kernel)).1 (by decide +kernel)

end Coping.StatisticsLine
