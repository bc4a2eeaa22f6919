import Coping.Library.Machine
import Coping.Ping.Basic

/-!
# clockdiff

`measure` and `measure_inner_loop` of `clockdiff.c`. The loops are a machine: it waits in
`sending` for the outcome of a send, and in `listening` for what `ppoll` and `recvfrom`
yield. A `long` is an integer here; the times are below a day or 32 bits wide, so none of
the sums and differences comes near its range.
-/

namespace Coping.Clockdiff

/-- The best expected round-trip time, in milliseconds. -/
def RANGE : Int := 1

def MSGS : Nat := 50

def TRIALS : Int := 10

def BIASP : Int := 43199999

def BIASN : Int := -43200000

def MODULO : Int := 86400000

def PROCESSING_TIME : Int := 0

def HOSTDOWN : Int := 0x7fffffff

def ICMP_ECHOREPLY : UInt8 := 0

def ICMP_TIMESTAMPREPLY : UInt8 := 14

def IPOPT_TIMESTAMP : UInt8 := 68

def IPOPT_TS_PRESPEC : UInt8 := 3

/-- What `measure` and `measure_inner_loop` return. -/
inductive Outcome where
  | failed
  | good
  | unreachable
  | nonstdtime
  | break
  | continue
  | hostdown
  deriving DecidableEq

/-- `struct run_state`. -/
structure RunState where
  id : UInt16
  ipOptLen : Nat := 0
  measureDelta : Int := HOSTDOWN
  measureDelta1 : Int := HOSTDOWN
  seqno : UInt16 := 0
  seqno0 : UInt16 := 0
  acked : UInt16 := 0
  rtt : Int := 1000
  minRtt : Int := 0x7fffffff
  rttSigma : Int := 0

/-- `struct measure_vars`. -/
structure MeasureVars where
  msgcount : Nat := 0
  min1 : Int := 0x7fffffff
  min2 : Int := 0x7fffffff

/-- A packet, as far as it is looked at. -/
structure Packet where
  type : UInt8
  id : UInt16
  sequence : UInt16
  /-- The three bytes at the beginning of the IP option that are read. -/
  optionType : UInt8 := 0
  optionPointer : UInt8 := 0
  optionFlags : UInt8 := 0
  /-- The times of the option, without their addresses. -/
  optionTime : Nat → UInt32 := fun _ => 0
  /-- The first two times of a timestamp reply. -/
  originate : UInt32 := 0
  receive : UInt32 := 0

/-- The milliseconds since midnight that are taken from the clock. -/
def sinceMidnight (ts : Timespec) : Int :=
  ts.tvSec.tmod (24 * 60 * 60) * 1000 + ts.tvNsec.tdiv 1000000

/-- The correction around midnight. -/
def wrap (delta : Int) : Int :=
  if delta < BIASN then delta + MODULO else if delta > BIASP then delta - MODULO else delta

/-- The times of a sample. -/
structure Times where
  sendtime : Int := 0
  recvtime : Int := 0
  histime : Int := 0
  histime1 : Int := 0

def Times.delta1 (t : Times) : Int := wrap (t.histime - t.sendtime)

def Times.delta2 (t : Times) : Int := wrap (t.recvtime - t.histime1)

/-- A packet that answers one of the probes. -/
def RunState.answered (ctl : RunState) (p : Packet) : Bool :=
  ((ctl.ipOptLen ≠ 0 && p.type = ICMP_ECHOREPLY && p.optionType = IPOPT_TIMESTAMP) ||
    p.type = ICMP_TIMESTAMPREPLY) &&
  p.id = ctl.id && ctl.seqno0 ≤ p.sequence && p.sequence ≤ ctl.seqno

/-- The loop over the times of an IP option. -/
def optionTimes (ctl : RunState) (p : Packet) : Nat → Option Times
  | 0 => some {}
  | i + 1 => do
      let t ← optionTimes ctl p i
      let time := (p.optionTime i).toNat
      if time ≥ 2 ^ 31 then none
      else if i = 0 then some { t with sendtime := time }
      else if i = 1 then some { t with histime := time, histime1 := time }
      else if i = 2 then
        if ctl.ipOptLen = 4 + 4 * 8 then some { t with histime1 := time }
        else some { t with recvtime := time }
      else if i = 3 then some { t with recvtime := time }
      else some t

/-- A bit that is set in all of the times. -/
def Times.shareBit (t : Times) : Bool :=
  t.sendtime.toNat &&& t.histime.toNat &&& t.histime1.toNat &&& t.recvtime.toNat ≠ 0

/-- The smoothed round-trip time and the number of samples. -/
def noteRoundTrip (ctl : RunState) (diff : Int) : RunState :=
  let rtt := (ctl.rtt * 3 + diff).tdiv 4
  { ctl with rtt := rtt, rttSigma := (ctl.rttSigma * 3 + (diff - rtt).natAbs).tdiv 4 }

/-- The minima of the deltas. -/
def noteDeltas (mv : MeasureVars) (t : Times) : MeasureVars :=
  { mv with min1 := min mv.min1 t.delta1, min2 := min mv.min2 t.delta2 }

/-- The delta of the sample with the best round trip. -/
def noteBest (ctl : RunState) (t : Times) : RunState :=
  if t.delta1 + t.delta2 < ctl.minRtt then
    { ctl with
      minRtt := t.delta1 + t.delta2
      measureDelta1 := (t.delta1 - t.delta2).tdiv 2 + PROCESSING_TIME }
  else ctl

@[simp] theorem noteBest_rtt (ctl : RunState) (t : Times) : (noteBest ctl t).rtt = ctl.rtt := by
  rw [noteBest]
  split <;> rfl

@[simp] theorem noteBest_seqno (ctl : RunState) (t : Times) :
    (noteBest ctl t).seqno = ctl.seqno := by
  rw [noteBest]
  split <;> rfl

@[simp] theorem noteBest_acked (ctl : RunState) (t : Times) :
    (noteBest ctl t).acked = ctl.acked := by
  rw [noteBest]
  split <;> rfl

@[simp] theorem noteBest_minRtt (ctl : RunState) (t : Times) :
    (noteBest ctl t).minRtt = min ctl.minRtt (t.delta1 + t.delta2) := by
  rw [noteBest]
  split
  next hbetter => exact (Int.min_eq_right (Int.le_of_lt hbetter)).symm
  next hworse => exact (Int.min_eq_left (Int.not_lt.mp hworse)).symm

/-- What the loop does with the times of a sample. -/
def takeSample (ctl : RunState) (mv : MeasureVars) (t : Times) :
    RunState × MeasureVars × Outcome :=
  let diff := t.recvtime - t.sendtime
  -- diff can be less than 0 around midnight
  if diff < 0 then (ctl, mv, .continue)
  else
    let ctl := noteRoundTrip ctl diff
    let mv := { mv with msgcount := mv.msgcount + 1 }
    if ctl.ipOptLen = 0 ∧ t.histime ≥ 2 ^ 31 then (ctl, mv, .nonstdtime)
    else if diff < RANGE then
      (noteBest ctl t, { noteDeltas mv t with min1 := t.delta1, min2 := t.delta2 }, .break)
    else (noteBest ctl t, noteDeltas mv t, .continue)

def acknowledge (ctl : RunState) (p : Packet) : RunState :=
  { ctl with acked := if ctl.acked < p.sequence then p.sequence else ctl.acked }

/-- The loop over the times does not look at `acked`. -/
theorem optionTimes_acknowledge (ctl : RunState) (p : Packet) (n : Nat) :
    optionTimes (acknowledge ctl p) p n = optionTimes ctl p n := by
  induction n with
  | zero => rfl
  | succ i ih =>
      rw [optionTimes, optionTimes, ih]
      rfl

/-- The times of a timestamp reply that is received now. -/
def replyTimes (clock : Timespec) (p : Packet) : Times where
  sendtime := p.originate.toNat
  recvtime := sinceMidnight clock
  histime := p.receive.toNat
  histime1 := p.receive.toNat

/-- `measure_inner_loop`, behind `recvfrom`. -/
def measureInnerLoop (ctl : RunState) (mv : MeasureVars) (clock : Timespec) (p : Packet) :
    RunState × MeasureVars × Outcome :=
  if ctl.answered p then
    let ctl := acknowledge ctl p
    if ctl.ipOptLen = 0 then takeSample ctl mv (replyTimes clock p)
    else if p.optionFlags &&& 0xf ≠ IPOPT_TS_PRESPEC then (ctl, mv, .nonstdtime)
    else
      match optionTimes ctl p (((p.optionPointer.toNat : Int) - 5).tdiv 8).toNat with
      | none => (ctl, mv, .nonstdtime)
      | some t => if t.shareBit then takeSample ctl mv t else (ctl, mv, .failed)
  else (ctl, mv, .continue)

/-- What an answer to a probe with an IP option comes to. -/
theorem measureInnerLoop_option {ctl : RunState} {mv : MeasureVars} {clock : Timespec} {p : Packet}
    (mode : ctl.ipOptLen ≠ 0) (answered : ctl.answered p = true) :
    measureInnerLoop ctl mv clock p =
      if p.optionFlags &&& 0xf ≠ IPOPT_TS_PRESPEC then (acknowledge ctl p, mv, .nonstdtime)
      else
        match optionTimes ctl p (((p.optionPointer.toNat : Int) - 5).tdiv 8).toNat with
        | none => (acknowledge ctl p, mv, .nonstdtime)
        | some t =>
            if t.shareBit then takeSample (acknowledge ctl p) mv t
            else (acknowledge ctl p, mv, .failed) := by
  have hmode : ¬(acknowledge ctl p).ipOptLen = 0 := mode
  rw [measureInnerLoop, if_pos answered]
  dsimp only
  rw [if_neg hmode, optionTimes_acknowledge]

/-! ## `measure` -/

inductive Phase where
  | sending
  | listening
  | returned (outcome : Outcome)
  deriving DecidableEq

structure MeasureState where
  ctl : RunState
  mv : MeasureVars := {}
  phase : Phase

inductive Event where
  /-- A send, and whether it succeeds. -/
  | send (success : Bool)
  /-- `ppoll` runs into its timeout. -/
  | silence
  /-- `recvfrom` fails. -/
  | recvFailed
  | packet (clock : Timespec) (p : Packet)

/-- The top of the loop over the messages. -/
def loopTop (ctl : RunState) (mv : MeasureVars) : MeasureState :=
  if mv.msgcount ≥ MSGS then
    { ctl := { ctl with measureDelta := (mv.min1 - mv.min2).tdiv 2 + PROCESSING_TIME }
      mv := mv
      phase := .returned .good }
  else if (ctl.seqno.toNat : Int) - ctl.acked.toNat > TRIALS then
    { ctl := ctl, mv := mv, phase := .returned .hostdown }
  else { ctl := ctl, mv := mv, phase := .sending }

/-- The end of a pass of the inner loop. -/
def innerEnd (r : RunState × MeasureVars × Outcome) : MeasureState :=
  match r.2.2 with
  | .break => loopTop r.1 r.2.1
  | .continue => { ctl := r.1, mv := r.2.1, phase := .listening }
  | outcome => { ctl := r.1, mv := r.2.1, phase := .returned outcome }

/-- With the input queue empty. -/
def start (ctl : RunState) : MeasureState :=
  loopTop
    { ctl with
      minRtt := 0x7fffffff
      measureDelta := HOSTDOWN
      measureDelta1 := HOSTDOWN
      acked := 0
      seqno := 0
      seqno0 := 0 } {}

def measure : Machine MeasureState Event where
  step s e :=
    match s.phase, e with
    | .sending, .send success =>
        let ctl := { s.ctl with seqno := s.ctl.seqno + 1 }
        some { ctl := ctl
               mv := s.mv
               phase := if success then .listening else .returned .unreachable }
    | .listening, .silence => some (innerEnd (s.ctl, s.mv, .break))
    | .listening, .recvFailed => some (innerEnd (s.ctl, s.mv, .failed))
    | .listening, .packet clock p => some (innerEnd (measureInnerLoop s.ctl s.mv clock p))
    | _, _ => none

/-- What a step of `measure` is. -/
theorem measure_cases {s t : MeasureState} {e : Event} (h : measure.step s e = some t) :
    (∃ success, e = .send success ∧
      t =
        { ctl := { s.ctl with seqno := s.ctl.seqno + 1 }
          mv := s.mv
          phase := if success then .listening else .returned .unreachable }) ∨
    (e = .silence ∧ t = innerEnd (s.ctl, s.mv, .break)) ∨
    (e = .recvFailed ∧ t = innerEnd (s.ctl, s.mv, .failed)) ∨
    ∃ clock p, e = .packet clock p ∧ t = innerEnd (measureInnerLoop s.ctl s.mv clock p) := by
  cases hphase : s.phase with
  | sending =>
      cases e with
      | send success => exact .inl ⟨success, rfl, by simpa [measure, hphase] using h.symm⟩
      | _ => simp [measure, hphase] at h
  | listening =>
      cases e with
      | send success => simp [measure, hphase] at h
      | silence => exact .inr (.inl ⟨rfl, by simpa [measure, hphase] using h.symm⟩)
      | recvFailed => exact .inr (.inr (.inl ⟨rfl, by simpa [measure, hphase] using h.symm⟩))
      | packet clock p =>
          exact .inr (.inr (.inr ⟨clock, p, rfl, by simpa [measure, hphase] using h.symm⟩))
  | returned outcome => cases e <;> simp [measure, hphase] at h

end Coping.Clockdiff
