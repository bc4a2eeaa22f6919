import Coping.Clockdiff.Measure

/-!
# The times of a timestamp option

With `-o` and `-o1` the times of a sample are those of an IP option. That all of them are
there is tested by one bitwise expression, which asks for more: a bit that is set in all four
of them. Replies whose times are all there are sound samples exactly when they have one.
-/

namespace Coping.OptionTimes

open Clockdiff

/-- How many times the pointer of the option says there are. -/
def timeCount (p : Clockdiff.Packet) : Nat := (((p.optionPointer.toNat : Int) - 5).tdiv 8).toNat

/-- The time in a slot of the option, zero in a slot that has not been filled. -/
def carried (p : Clockdiff.Packet) (i : Nat) : Int :=
  if i < timeCount p then (p.optionTime i).toNat else 0

/-- The times of a reply. With `-o` there is a slot for each, with `-o1` the peer has filled
one only. -/
def carriedTimes (ctl : RunState) (p : Clockdiff.Packet) : Times where
  sendtime := carried p 0
  histime := carried p 1
  histime1 := if ctl.ipOptLen = 4 + 4 * 8 then carried p 2 else carried p 1
  recvtime := if ctl.ipOptLen = 4 + 4 * 8 ∨ 3 < timeCount p then carried p 3 else carried p 2

/-- None of the times is missing or zero. -/
structure Complete (t : Times) : Prop where
  sendtime : t.sendtime ≠ 0
  histime : t.histime ≠ 0
  histime1 : t.histime1 ≠ 0
  recvtime : t.recvtime ≠ 0

/-- The times in the first slots are milliseconds since midnight. -/
def Standard (p : Clockdiff.Packet) (n : Nat) : Prop := ∀ i < n, (p.optionTime i).toNat < 2 ^ 31

/-- A reply to one of the probes, with standard times in its option. -/
structure OptionReply (ctl : RunState) (p : Clockdiff.Packet) : Prop where
  answered : ctl.answered p = true
  prespecified : p.optionFlags &&& 0xf = IPOPT_TS_PRESPEC
  standard : Standard p (timeCount p)

/-- What a sample with the given times does. -/
structure Accepted (ctl : RunState) (mv : MeasureVars) (t : Times)
    (r : RunState × MeasureVars × Outcome) : Prop where
  outcome : r.2.2 = .break ∨ r.2.2 = .continue
  msgcount : r.2.1.msgcount = mv.msgcount + 1
  rtt : r.1.rtt = (ctl.rtt * 3 + (t.recvtime - t.sendtime)).tdiv 4
  min1 : r.2.1.min1 =
    if t.recvtime - t.sendtime < RANGE then t.delta1 else min mv.min1 t.delta1
  min2 : r.2.1.min2 =
    if t.recvtime - t.sendtime < RANGE then t.delta2 else min mv.min2 t.delta2
  minRtt : r.1.minRtt = min ctl.minRtt (t.delta1 + t.delta2)

/-- A complete reply is accepted, and only an incomplete one rejected. -/
structure Sound (ctl : RunState) (mv : MeasureVars) (clock : Timespec)
    (p : Clockdiff.Packet) : Prop where
  accepted : OptionReply ctl p → Complete (carriedTimes ctl p) →
    (carriedTimes ctl p).sendtime ≤ (carriedTimes ctl p).recvtime →
      Accepted ctl mv (carriedTimes ctl p) (measureInnerLoop ctl mv clock p)
  rejected : (measureInnerLoop ctl mv clock p).2.2 = .failed → ¬Complete (carriedTimes ctl p)

variable {ctl : RunState} {mv : MeasureVars} {clock : Timespec} {p : Clockdiff.Packet} {n : Nat}

/-! ## The loop over the times -/

/-- The variables after the first slots. -/
def filled (ctl : RunState) (p : Clockdiff.Packet) (n : Nat) : Times where
  sendtime := if 0 < n then (p.optionTime 0).toNat else 0
  histime := if 1 < n then (p.optionTime 1).toNat else 0
  histime1 :=
    if ctl.ipOptLen = 4 + 4 * 8 ∧ 2 < n then (p.optionTime 2).toNat
    else if 1 < n then (p.optionTime 1).toNat else 0
  recvtime :=
    if 3 < n then (p.optionTime 3).toNat
    else if ctl.ipOptLen ≠ 4 + 4 * 8 ∧ 2 < n then (p.optionTime 2).toNat else 0

/-- One slot more, as the body of the loop reads it. -/
theorem filled_succ (i : Nat) :
    filled ctl p (i + 1) =
      if i = 0 then { filled ctl p i with sendtime := (p.optionTime i).toNat }
      else if i = 1 then
        { filled ctl p i with
          histime := (p.optionTime i).toNat
          histime1 := (p.optionTime i).toNat }
      else if i = 2 then
        if ctl.ipOptLen = 4 + 4 * 8 then
          { filled ctl p i with histime1 := (p.optionTime i).toNat }
        else { filled ctl p i with recvtime := (p.optionTime i).toNat }
      else if i = 3 then { filled ctl p i with recvtime := (p.optionTime i).toNat }
      else filled ctl p i := by
  match i with
  | 0 => simp [filled]
  | 1 => simp [filled]
  | 2 => by_cases hmode : ctl.ipOptLen = 36 <;> simp [filled, hmode]
  | 3 => simp [filled]
  | i + 4 => simp [filled]

theorem optionTimes_eq (standard : Standard p n) :
    optionTimes ctl p n = some (filled ctl p n) := by
  induction n with
  | zero => simp [optionTimes, filled]
  | succ i ih =>
      have htime : ¬(p.optionTime i).toNat ≥ 2 ^ 31 :=
        Nat.not_le.mpr (standard i (Nat.lt_succ_self i))
      rw [optionTimes, ih fun j hj => standard j (Nat.lt_succ_of_lt hj), filled_succ]
      simp only [Option.bind_eq_bind, Option.bind_some]
      rw [if_neg htime]
      split_ifs
      all_goals rfl

/-- A time of another standard ends the loop. -/
theorem optionTimes_eq_none (nonstandard : ¬Standard p n) : optionTimes ctl p n = none := by
  induction n with
  | zero => exact absurd (fun i hi => absurd hi (Nat.not_lt_zero i)) nonstandard
  | succ i ih =>
      rw [optionTimes]
      by_cases hbefore : Standard p i
      · have htime : (p.optionTime i).toNat ≥ 2 ^ 31 := by
          apply Nat.not_lt.mp
          intro hlt
          apply nonstandard
          intro j hj
          rcases Nat.lt_succ_iff_lt_or_eq.mp hj with hj | rfl
          · exact hbefore j hj
          · exact hlt
        rw [optionTimes_eq hbefore]
        simp only [Option.bind_eq_bind, Option.bind_some]
        rw [if_pos htime]
      · rw [ih hbefore]
        rfl

theorem lt_of_carried_ne_zero {i : Nat} (h : carried p i ≠ 0) : i < timeCount p := by
  by_contra hmissing
  exact h (if_neg hmissing)

/-- When no time is missing, the loop finds each where it belongs. -/
theorem filled_of_complete (complete : Complete (carriedTimes ctl p)) :
    filled ctl p (timeCount p) = carriedTimes ctl p := by
  have h0 := lt_of_carried_ne_zero complete.sendtime
  have h1 := lt_of_carried_ne_zero complete.histime
  by_cases hmode : ctl.ipOptLen = 4 + 4 * 8
  · have h2 : 2 < timeCount p := by
      apply lt_of_carried_ne_zero
      simpa [carriedTimes, hmode] using complete.histime1
    have h3 : 3 < timeCount p := by
      apply lt_of_carried_ne_zero
      simpa [carriedTimes, hmode] using complete.recvtime
    simp [filled, carriedTimes, carried, hmode, h0, h1, h2, h3]
  · by_cases h3 : 3 < timeCount p
    · simp [filled, carriedTimes, carried, hmode, h0, h1, h3]
    · have h2 : 2 < timeCount p := by
        apply lt_of_carried_ne_zero
        simpa [carriedTimes, hmode, h3] using complete.recvtime
      simp [filled, carriedTimes, carried, hmode, h0, h1, h2, h3]

/-! ## The reply -/

theorem accepted_takeSample {t : Times} (mode : ctl.ipOptLen ≠ 0)
    (ordered : t.sendtime ≤ t.recvtime) : Accepted ctl mv t (takeSample ctl mv t) := by
  have hdiff : ¬t.recvtime - t.sendtime < 0 := by omega
  rw [takeSample, if_neg hdiff]
  dsimp only
  rw [if_neg fun h => mode h.1]
  by_cases hrange : t.recvtime - t.sendtime < RANGE
  · rw [if_pos hrange]
    exact ⟨.inl rfl, rfl, noteBest_rtt _ t, (if_pos hrange).symm, (if_pos hrange).symm,
      noteBest_minRtt _ t⟩
  · rw [if_neg hrange]
    exact ⟨.inr rfl, rfl, noteBest_rtt _ t, (if_neg hrange).symm, (if_neg hrange).symm,
      noteBest_minRtt _ t⟩

theorem takeSample_ne_failed (t : Times) : (takeSample ctl mv t).2.2 ≠ .failed := by
  rw [takeSample]
  dsimp only
  split_ifs
  all_goals exact Outcome.noConfusion

/-- What a complete reply comes to. -/
theorem measureInnerLoop_complete (mode : ctl.ipOptLen ≠ 0) (reply : OptionReply ctl p)
    (complete : Complete (carriedTimes ctl p)) :
    measureInnerLoop ctl mv clock p =
      if (carriedTimes ctl p).shareBit then
        takeSample (Clockdiff.acknowledge ctl p) mv (carriedTimes ctl p)
      else (Clockdiff.acknowledge ctl p, mv, .failed) := by
  rw [measureInnerLoop_option mode reply.answered, if_neg fun h => h reply.prespecified,
    ← timeCount, optionTimes_eq reply.standard, filled_of_complete complete]

/-- Anything else than a standard reply is never called wrong. -/
theorem optionReply_of_failed (mode : ctl.ipOptLen ≠ 0)
    (failed : (measureInnerLoop ctl mv clock p).2.2 = .failed) : OptionReply ctl p := by
  by_cases hanswered : ctl.answered p = true
  · rw [measureInnerLoop_option mode hanswered, ← timeCount] at failed
    by_cases hflags : p.optionFlags &&& 0xf = IPOPT_TS_PRESPEC
    · rw [if_neg fun h => h hflags] at failed
      by_cases hstandard : Standard p (timeCount p)
      · exact ⟨hanswered, hflags, hstandard⟩
      · rw [optionTimes_eq_none hstandard] at failed
        cases failed
    · rw [if_pos hflags] at failed
      cases failed
  · rw [measureInnerLoop, if_neg hanswered] at failed
    cases failed

/-- A reply to a probe with an IP option is treated as it should be exactly when its four
times, if none of them is missing or zero, have a bit in common. -/
theorem sound_iff_shareBit (ctl : RunState) (mv : MeasureVars) (clock : Timespec)
    (p : Clockdiff.Packet) (mode : ctl.ipOptLen ≠ 0) :
    Sound ctl mv clock p ↔
      (OptionReply ctl p → Complete (carriedTimes ctl p) →
        (carriedTimes ctl p).shareBit = true) := by
  constructor
  · intro sound reply complete
    by_contra hshare
    apply sound.rejected _ complete
    rw [measureInnerLoop_complete mode reply complete, if_neg hshare]
  · intro share
    constructor
    · intro reply complete ordered
      rw [measureInnerLoop_complete mode reply complete, if_pos (share reply complete)]
      have htaken : Accepted (Clockdiff.acknowledge ctl p) mv (carriedTimes ctl p)
          (takeSample (Clockdiff.acknowledge ctl p) mv (carriedTimes ctl p)) :=
        accepted_takeSample mode ordered
      exact ⟨htaken.outcome, htaken.msgcount, htaken.rtt, htaken.min1, htaken.min2,
        htaken.minRtt⟩
    · intro failed complete
      have hreply := optionReply_of_failed mode failed
      rw [measureInnerLoop_complete mode hreply complete, if_pos (share hreply complete)] at failed
      exact takeSample_ne_failed _ failed

/-- The state of `-o1` after its first probe. -/
def firstProbe : RunState := { id := 7, ipOptLen := 4 + 3 * 8, seqno := 1 }

/-- A reply whose three times are 1, 2 and 4 milliseconds after midnight. -/
def earlyReply : Clockdiff.Packet where
  type := Clockdiff.ICMP_ECHOREPLY
  id := 7
  sequence := 1
  optionType := Clockdiff.IPOPT_TIMESTAMP
  optionPointer := 29
  optionFlags := 3
  optionTime i := UInt32.ofNat (2 ^ i)

/-- Times without a common bit are called wrong although none of them is. -/
theorem earlyReply_rejected :
    Complete (carriedTimes firstProbe earlyReply) ∧
      (carriedTimes firstProbe earlyReply).sendtime ≤
        (carriedTimes firstProbe earlyReply).recvtime ∧
      (measureInnerLoop firstProbe {} {} earlyReply).2.2 = .failed ∧
      ¬Sound firstProbe {} {} earlyReply :=
  have hcomplete : Complete (carriedTimes firstProbe earlyReply) := by
    constructor <;> decide
  have hfailed : (measureInnerLoop firstProbe {} {} earlyReply).2.2 = .failed := by decide
  ⟨hcomplete, by decide, hfailed, fun sound => sound.rejected hfailed hcomplete⟩

/-- Times in the middle of the day that do have one. -/
theorem sound_iff_shareBit_noon :
    Sound firstProbe {} {} { earlyReply with
      optionTime := fun i => 43200000 + UInt32.ofNat i } :=
  (sound_iff_shareBit firstProbe {} {} _ (by decide)).mpr fun _ _ => by decide

end Coping.OptionTimes
