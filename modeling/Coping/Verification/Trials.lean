import Coping.Verification.OptionTimes

/-!
# The number of probes of a measurement

`measure` ends after `MSGS` samples, or when `TRIALS` probes in a row have not been answered.
An answer whose times run backward is not counted as a sample although its probe counts as
answered. In a run without such answers at most `TRIALS` probes in a row pass without a
sample, which bounds their number. A peer that gives them is probed forever, and after the
sequence numbers have wrapped its silence is not noticed any more.
-/

namespace Coping.Trials

open Clockdiff OptionTimes

/-- `measure` with the number of probes that have been sent. -/
def probing : Machine (MeasureState × Nat) Event :=
  measure.logged fun _ e _ sends =>
    match e with
    | .send _ => sends + 1
    | _ => sends

/-- The times of the sample in an answer. -/
def sampleTimes (ctl : RunState) (clock : Timespec) (p : Clockdiff.Packet) : Option Times :=
  if ctl.ipOptLen = 0 then some (replyTimes clock p)
  else if p.optionFlags &&& 0xf ≠ IPOPT_TS_PRESPEC then none
  else (optionTimes ctl p (timeCount p)).filter Times.shareBit

/-- The first answer to a probe, with times that run backward. -/
def RunsBackward (ctl : RunState) (clock : Timespec) (p : Clockdiff.Packet) : Prop :=
  ctl.answered p = true ∧ ctl.acked < p.sequence ∧
    ∃ t, sampleTimes ctl clock p = some t ∧ t.recvtime < t.sendtime

/-- The event is no such answer. -/
def Forward (s : MeasureState × Nat) : Event → Prop
  | .packet clock p => ¬RunsBackward s.1.ctl clock p
  | _ => True

variable {ctl : RunState} {mv : MeasureVars} {clock : Timespec} {p : Clockdiff.Packet}
variable {sends : Nat}

/-! ## One reply -/

theorem takeSample_cases (t : Times) :
    (t.recvtime < t.sendtime ∧ takeSample ctl mv t = (ctl, mv, .continue)) ∨
    ((takeSample ctl mv t).1.seqno = ctl.seqno ∧ (takeSample ctl mv t).1.acked = ctl.acked ∧
      (takeSample ctl mv t).2.1.msgcount = mv.msgcount + 1) := by
  by_cases hdiff : t.recvtime - t.sendtime < 0
  · exact .inl ⟨by omega, if_pos hdiff⟩
  · right
    rw [takeSample, if_neg hdiff]
    dsimp only
    split
    · exact ⟨rfl, rfl, rfl⟩
    split
    · exact ⟨noteBest_seqno _ t, noteBest_acked _ t, rfl⟩
    · exact ⟨noteBest_seqno _ t, noteBest_acked _ t, rfl⟩

/-- What a reply comes to. -/
theorem measureInnerLoop_cases :
    (measureInnerLoop ctl mv clock p = (ctl, mv, .continue)) ∨
    (ctl.answered p = true ∧ ∃ outcome, (outcome = .failed ∨ outcome = .nonstdtime) ∧
      measureInnerLoop ctl mv clock p = (Clockdiff.acknowledge ctl p, mv, outcome)) ∨
    (ctl.answered p = true ∧ ∃ t, sampleTimes ctl clock p = some t ∧
      measureInnerLoop ctl mv clock p = takeSample (Clockdiff.acknowledge ctl p) mv t) := by
  by_cases hanswered : ctl.answered p = true
  · right
    rw [sampleTimes]
    by_cases hmode : ctl.ipOptLen = 0
    · have hacked : (Clockdiff.acknowledge ctl p).ipOptLen = 0 := hmode
      rw [measureInnerLoop, if_pos hanswered]
      dsimp only
      rw [if_pos hacked, if_pos hmode]
      exact .inr ⟨hanswered, _, rfl, rfl⟩
    rw [measureInnerLoop_option hmode hanswered, ← timeCount, if_neg hmode]
    by_cases hflags : p.optionFlags &&& 0xf = IPOPT_TS_PRESPEC
    · rw [if_neg fun h => h hflags, if_neg fun h => h hflags]
      cases hloaded : optionTimes ctl p (timeCount p) with
      | none => exact .inl ⟨hanswered, .nonstdtime, .inr rfl, rfl⟩
      | some t =>
          dsimp only
          by_cases hshare : t.shareBit = true
          · rw [if_pos hshare]
            exact .inr ⟨hanswered, t, Option.filter_some_pos hshare, rfl⟩
          · rw [if_neg hshare]
            exact .inl ⟨hanswered, .failed, .inl rfl, rfl⟩
    · rw [if_pos hflags, if_pos hflags]
      exact .inl ⟨hanswered, .nonstdtime, .inr rfl, rfl⟩
  · exact .inl (if_neg hanswered)

/-! ## The pace of a run -/

/-- At most `TRIALS` probes in a row without a sample are behind us, and one more is on its
way: the probes are numbered, and a sample has been taken for every step of `acked`. -/
structure Paced (ctl : RunState) (mv : MeasureVars) (sends : Nat) : Prop where
  seqno : ctl.seqno.toNat = sends
  acked : ctl.acked.toNat ≤ (TRIALS.toNat + 1) * mv.msgcount
  pace : sends ≤ ctl.acked.toNat + (TRIALS.toNat + 1)
  total : sends ≤ MSGS * (TRIALS.toNat + 1)

/-- A state of a run, where another probe is sent only if there is room for it. -/
structure Bounded (s : MeasureState × Nat) : Prop where
  total : s.2 ≤ MSGS * (TRIALS.toNat + 1)
  paced : s.1.phase = .sending ∨ s.1.phase = .listening → Paced s.1.ctl s.1.mv s.2
  room : s.1.phase = .sending →
    s.1.mv.msgcount < MSGS ∧ s.2 ≤ s.1.ctl.acked.toNat + TRIALS.toNat

theorem Bounded.of_returned {outcome : Outcome} (total : sends ≤ MSGS * (TRIALS.toNat + 1)) :
    Bounded ({ ctl := ctl, mv := mv, phase := .returned outcome }, sends) where
  total := total
  paced active := by
    rcases active with h | h
    · cases h
    · cases h
  room h := by cases h

theorem Paced.loopTop (h : Paced ctl mv sends) : Bounded (loopTop ctl mv, sends) := by
  rw [Clockdiff.loopTop]
  split
  · exact .of_returned h.total
  split
  · exact .of_returned h.total
  · rename_i hmessages hdistance
    refine ⟨h.total, fun _ => h, fun _ => ⟨Nat.not_le.mp hmessages, ?_⟩⟩
    rw [h.seqno, TRIALS] at hdistance
    rw [TRIALS]
    show sends ≤ ctl.acked.toNat + (10 : Int).toNat
    omega

theorem Paced.innerEnd {r : RunState × MeasureVars × Outcome} (h : Paced r.1 r.2.1 sends) :
    Bounded (innerEnd r, sends) := by
  obtain ⟨ctl, mv, outcome⟩ := r
  cases outcome with
  | «break» => exact h.loopTop
  | «continue» => exact ⟨h.total, fun _ => h, fun hsending => by cases hsending⟩
  | _ => exact .of_returned h.total

/-- A probe more, where there is room for it. -/
theorem Paced.send (h : Paced ctl mv sends) (messages : mv.msgcount < MSGS)
    (room : sends ≤ ctl.acked.toNat + TRIALS.toNat) :
    Paced { ctl with seqno := ctl.seqno + 1 } mv (sends + 1) := by
  have hacked := h.acked
  have htrials : TRIALS.toNat = 10 := rfl
  rw [htrials] at hacked room
  rw [ MSGS] at messages
  have htotal : sends + 1 ≤ 550 := by omega
  refine ⟨?_, h.acked, ?_, htotal⟩
  · show (ctl.seqno + 1).toNat = sends + 1
    rw [UInt16.toNat_add, h.seqno, UInt16.toNat_one]
    exact Nat.mod_eq_of_lt (by omega)
  · show sends + 1 ≤ ctl.acked.toNat + (TRIALS.toNat + 1)
    omega

/-- An answer that is counted may have moved `acked` up to the last probe. -/
theorem Paced.sample (h : Paced ctl mv sends) {ctl' : RunState} {mv' : MeasureVars}
    (seqno : ctl'.seqno = ctl.seqno) (least : ctl.acked ≤ ctl'.acked)
    (most : ctl'.acked ≤ ctl.seqno ∨ ctl'.acked = ctl.acked)
    (msgcount : mv'.msgcount = mv.msgcount + 1) : Paced ctl' mv' sends := by
  have hseqno := h.seqno
  have hacked := h.acked
  have hpace := h.pace
  have hleast := UInt16.le_iff_toNat_le.mp least
  have hmost : ctl'.acked.toNat ≤ ctl.seqno.toNat ∨ ctl'.acked.toNat = ctl.acked.toNat :=
    most.imp UInt16.le_iff_toNat_le.mp (congrArg UInt16.toNat)
  have htrials : TRIALS.toNat = 10 := rfl
  rw [htrials] at hacked hpace
  refine ⟨(congrArg UInt16.toNat seqno).trans h.seqno, ?_, ?_, h.total⟩
  · rw [msgcount, htrials]
    omega
  · rw [htrials]
    omega

theorem answered_le (h : ctl.answered p = true) : p.sequence ≤ ctl.seqno := by
  rw [RunState.answered, Bool.and_eq_true] at h
  exact of_decide_eq_true h.2

theorem acked_le_acknowledge : ctl.acked ≤ (Clockdiff.acknowledge ctl p).acked := by
  rw [Clockdiff.acknowledge]
  dsimp only
  split
  next hnew => exact UInt16.le_of_lt hnew
  next => exact UInt16.le_refl _

/-- `acked` becomes the number of the answered probe, unless it is beyond it. -/
theorem acknowledge_acked (answered : ctl.answered p = true) :
    (Clockdiff.acknowledge ctl p).acked ≤ ctl.seqno ∨
      (Clockdiff.acknowledge ctl p).acked = ctl.acked := by
  rw [Clockdiff.acknowledge]
  dsimp only
  split
  · exact .inl (answered_le answered)
  · exact .inr rfl

/-- A reply, unless it is one whose times run backward. -/
theorem Paced.reply (h : Paced ctl mv sends) (forward : ¬RunsBackward ctl clock p) :
    Bounded (Clockdiff.innerEnd (measureInnerLoop ctl mv clock p), sends) := by
  rcases measureInnerLoop_cases with hr | ⟨-, outcome, houtcome, hr⟩ | ⟨hanswered, t, ht, hr⟩
  · rw [hr]
    exact Paced.innerEnd h
  · rw [hr]
    rcases houtcome with rfl | rfl
    · exact .of_returned h.total
    · exact .of_returned h.total
  · rw [hr]
    apply Paced.innerEnd
    rcases @takeSample_cases (Clockdiff.acknowledge ctl p) mv t with
      ⟨hbackward, htaken⟩ | ⟨hseqno, hacked, hmsgcount⟩
    · -- an answer that is dropped has not moved `acked`
      rw [htaken]
      have hsame : Clockdiff.acknowledge ctl p = ctl := by
        rw [Clockdiff.acknowledge,
          if_neg fun hnew => forward ⟨hanswered, hnew, t, ht, hbackward⟩]
      rw [hsame]
      exact h
    · apply h.sample hseqno
      · rw [hacked]
        exact acked_le_acknowledge
      · rw [hacked]
        exact acknowledge_acked hanswered
      · exact hmsgcount

/-- A probe is sent in one phase, and everything else happens in the other. -/
theorem phase_of_step {s t : MeasureState} {e : Event} (h : Clockdiff.measure.step s e = some t) :
    s.phase = .sending ∨ s.phase = .listening ∧ ∀ success, e ≠ .send success := by
  cases hphase : s.phase with
  | sending => exact .inl rfl
  | listening =>
      refine .inr ⟨rfl, ?_⟩
      rintro success rfl
      simp [Clockdiff.measure, hphase] at h
  | returned outcome => cases e <;> simp [Clockdiff.measure, hphase] at h

/-- One step keeps the bound. -/
theorem Bounded.step {s t : MeasureState × Nat} {e : Event} (h : Bounded s)
    (forward : Forward s e) (hstep : probing.step s e = some t) : Bounded t := by
  obtain ⟨s, sends⟩ := s
  obtain ⟨t, total⟩ := t
  obtain ⟨hmeasure, htotal⟩ := Machine.logged_step hstep
  dsimp only at hmeasure htotal
  subst htotal
  obtain ⟨success, rfl, rfl⟩ | ⟨rfl, rfl⟩ | ⟨rfl, rfl⟩ | ⟨clock, p, rfl, rfl⟩ :=
    measure_cases hmeasure
  · have hsending : s.phase = .sending :=
      (phase_of_step hmeasure).resolve_right fun h => h.2 success rfl
    obtain ⟨hmessages, hroom⟩ := h.room hsending
    have hpaced := (h.paced (.inl hsending)).send hmessages hroom
    cases success with
    | true => exact ⟨hpaced.total, fun _ => hpaced, fun h => by cases h⟩
    | false => exact .of_returned hpaced.total
  · exact Paced.innerEnd (h.paced ((phase_of_step hmeasure).imp_right And.left))
  · exact Paced.innerEnd (h.paced ((phase_of_step hmeasure).imp_right And.left))
  · exact Paced.reply (h.paced ((phase_of_step hmeasure).imp_right And.left)) forward

theorem bounded_start (ctl : RunState) : Bounded (start ctl, 0) := by
  apply Paced.loopTop
  exact ⟨rfl, Nat.zero_le _, Nat.zero_le _, Nat.zero_le _⟩

/-- In a run without an answer whose times run backward at most `TRIALS` probes pass without
a sample, so that there are no more of them than that for each sample and the last one. -/
theorem sends_le (ctl : RunState) (es : List Event)
    (forward : probing.Guarded Forward (start ctl, 0) es) :
    probing.Always (fun s => s.2 ≤ MSGS * (TRIALS.toNat + 1)) (start ctl, 0) es :=
  (Machine.Always.of_invariant (bounded_start ctl) (fun _ _ _ => Bounded.step) forward).mono
    fun _ h => h.total

/-- A probe in silence and an answer to the next one. -/
theorem sends_le_silence :
    probing.Always (fun s => s.2 ≤ MSGS * (TRIALS.toNat + 1)) (start { id := 7 }, 0)
      [.send true, .silence, .send true, .packet { tvSec := 100 }
        { type := ICMP_TIMESTAMPREPLY, id := 7, sequence := 2, originate := 100000 }] := by
  apply sends_le
  refine ⟨trivial, fun s₁ h₁ => ⟨trivial, fun s₂ h₂ => ⟨trivial, fun s₃ h₃ => ⟨?_, ?_⟩⟩⟩⟩
  · cases h₁
    cases h₂
    cases h₃
    rintro ⟨-, -, t, ht, hbackward⟩
    cases ht
    revert hbackward
    decide
  · exact fun _ _ => trivial

/-! ## A peer whose times run backward -/

/-- So many probes have been sent, and the last answer was to that one. -/
def probed (seqno acked : UInt16) : RunState := { id := 7, seqno := seqno, acked := acked }

/-- The state before a probe, when so many have been answered. -/
def answeredState (k : Nat) : MeasureState where
  ctl := probed (UInt16.ofNat k) (UInt16.ofNat k)
  phase := .sending

/-- An answer that was sent a millisecond after it is received. -/
def backwardReply (k : Nat) : Clockdiff.Packet where
  type := ICMP_TIMESTAMPREPLY
  id := 7
  sequence := UInt16.ofNat k
  originate := 1

/-- So many probes, each answered so. -/
def answers : Nat → List Event
  | 0 => []
  | k + 1 => answers k ++ [.send true, .packet {} (backwardReply (k + 1)), .silence]

/-- The sequence numbers have wrapped, and the last answer had the greatest one. -/
def wrappedState (seqno : UInt16) : MeasureState where
  ctl := probed seqno 65535
  phase := .sending

def silences : Nat → List Event
  | 0 => []
  | m + 1 => [.send true, .silence] ++ silences m

theorem backwardReply_dropped {k : Nat} (range : k < 65535) :
    measureInnerLoop (probed (UInt16.ofNat (k + 1)) (UInt16.ofNat k)) {} {}
        (backwardReply (k + 1)) =
      (probed (UInt16.ofNat (k + 1)) (UInt16.ofNat (k + 1)), {}, .continue) := by
  have hanswered : (probed (UInt16.ofNat (k + 1)) (UInt16.ofNat k)).answered
      (backwardReply (k + 1)) = true := by
    simp [RunState.answered, backwardReply, probed]
  have hnew : UInt16.ofNat k < UInt16.ofNat (k + 1) := by
    rw [UInt16.lt_iff_toNat_lt, UInt16.toNat_ofNat', UInt16.toNat_ofNat',
      Nat.mod_eq_of_lt (by omega), Nat.mod_eq_of_lt (by omega)]
    exact Nat.lt_succ_self k
  have hacked : Clockdiff.acknowledge (probed (UInt16.ofNat (k + 1)) (UInt16.ofNat k))
      (backwardReply (k + 1)) = probed (UInt16.ofNat (k + 1)) (UInt16.ofNat (k + 1)) :=
    congrArg (probed (UInt16.ofNat (k + 1))) (if_pos hnew)
  rw [measureInnerLoop, if_pos hanswered, hacked]
  rfl

theorem final_answer {k sends : Nat} (range : k < 65535) :
    probing.final (answeredState k, sends)
        [.send true, .packet {} (backwardReply (k + 1)), .silence] =
      some (answeredState (k + 1), sends + 1) := by
  have hsend : probing.step (answeredState k, sends) (.send true) = some
      ({ ctl := probed (UInt16.ofNat (k + 1)) (UInt16.ofNat k)
         mv := {}
         phase := .listening }, sends + 1) := by
    rw [UInt16.ofNat_add]
    rfl
  have hpacket : probing.step
      ({ ctl := probed (UInt16.ofNat (k + 1)) (UInt16.ofNat k)
         mv := {}
         phase := .listening }, sends + 1) (.packet {} (backwardReply (k + 1))) = some
      ({ ctl := (answeredState (k + 1)).ctl, mv := {}, phase := .listening }, sends + 1) := by
    show some (Clockdiff.innerEnd (measureInnerLoop _ _ _ _), sends + 1) = _
    rw [backwardReply_dropped range]
    rfl
  have hsilence : probing.step
      ({ ctl := (answeredState (k + 1)).ctl, mv := {}, phase := .listening }, sends + 1)
        .silence = some (answeredState (k + 1), sends + 1) := by
    show some (Clockdiff.loopTop (answeredState (k + 1)).ctl {}, sends + 1) = _
    rw [Clockdiff.loopTop, if_neg (by decide), if_neg]
    · rfl
    · rw [answeredState, probed, Int.sub_self]
      decide
  rw [Machine.final_cons, hsend, Option.bind_some, Machine.final_cons, hpacket,
    Option.bind_some, Machine.final_cons, hsilence]
  rfl

theorem final_answers {k : Nat} (range : k ≤ 65535) :
    probing.final (answeredState 0, 0) (answers k) = some (answeredState k, k) := by
  induction k with
  | zero => rfl
  | succ k ih =>
      rw [answers, Machine.final_append, ih (Nat.le_of_succ_le range)]
      exact final_answer range

/-- With `acked` at its greatest value silence is not noticed. -/
theorem final_silences (seqno : UInt16) (sends m : Nat) :
    ∃ last, probing.final (wrappedState seqno, sends) (silences m) =
      some (wrappedState last, sends + m) := by
  induction m generalizing seqno sends with
  | zero => exact ⟨seqno, rfl⟩
  | succ m ih =>
      have hround : probing.final (wrappedState seqno, sends) [.send true, .silence] =
          some (wrappedState (seqno + 1), sends + 1) := by
        show some (Clockdiff.loopTop (wrappedState (seqno + 1)).ctl {}, sends + 1) = _
        have hrange : (seqno + 1).toNat < 65536 := (seqno + 1).toNat_lt
        rw [Clockdiff.loopTop, if_neg (by decide), if_neg]
        · rfl
        · show ¬((seqno + 1).toNat : Int) - 65535 > 10
          omega
      obtain ⟨last, hlast⟩ := ih (seqno + 1) (sends + 1)
      refine ⟨last, ?_⟩
      rw [silences, Machine.final_append, hround, Option.bind_some, hlast, Nat.add_right_comm,
        Nat.add_assoc]

/-- Nothing bounds the probes to a peer whose times run backward, not even its silence after
the sequence numbers have wrapped. -/
theorem sends_unbounded :
    (∀ m, ∃ s, probing.final (start { id := 7 }, 0) (answers 65535 ++ silences m) =
        some (s, 65535 + m) ∧ s.phase = .sending) ∧
      ¬∀ ctl es, probing.Always (fun s => s.2 ≤ MSGS * (TRIALS.toNat + 1)) (start ctl, 0) es := by
  have hprobed (m : Nat) : ∃ s, probing.final (start { id := 7 }, 0)
      (answers 65535 ++ silences m) = some (s, 65535 + m) ∧ s.phase = .sending := by
    obtain ⟨last, hlast⟩ := final_silences 65535 65535 m
    refine ⟨wrappedState last, ?_, rfl⟩
    rw [Machine.final_append, show start { id := 7 } = answeredState 0 from rfl,
      final_answers (Nat.le_refl _)]
    exact hlast
  refine ⟨hprobed, ?_⟩
  intro bounded
  obtain ⟨s, hs, -⟩ := hprobed 0
  have hfew : (65535 + 0 : Nat) ≤ MSGS * (TRIALS.toNat + 1) := (bounded _ _).final hs
  revert hfew
  decide

end Coping.Trials
