import Coping.Ping.Basic

/-!
# Statistics of the replies

`gather_statistics` of `ping_common.c`, up to the point where it starts to print,
with the functions it calls. A `Reply` is what `parse_reply` hands over, together
with the clock reading that the countermeasure against a clock going back takes.

The subtraction of the two times is done in signed 64-bit arithmetic: the payload
time is whatever sixteen bytes came back.
-/

namespace Coping

open CInt

/-- `INT32_MAX/1000001`. -/
def TV_SEC_MAX_VAL : Int := 2147

/-- Size of an ICMP header followed by a `struct timeval`. -/
def TIMED_LEN : Int := 24

structure Reply where
  /-- Bytes received, the ICMP header included. -/
  cc : Int
  seq : UInt16
  csfailed : Bool
  /-- When the reply was received. -/
  tv : Timeval := {}
  /-- The time found in the payload. -/
  stamp : Timeval := {}
  /-- The clock when it is read again. -/
  now : Timeval := {}

def tvsub (out sub : Timeval) : Timeval :=
  let usec := toInt64 (out.tvUsec - sub.tvUsec)
  if usec < 0 then
    { tvSec := toInt64 (toInt64 (out.tvSec - 1) - sub.tvSec), tvUsec := usec + 1000000 }
  else
    { tvSec := toInt64 (out.tvSec - sub.tvSec), tvUsec := usec }

/-- The two clamps behind `tvsub`. -/
def clampUsec (tv : Timeval) : Timeval :=
  { tv with
    tvUsec := if tv.tvUsec ≥ 1000000 then 999999 else if tv.tvUsec < 0 then 0 else tv.tvUsec }

/-- One pass behind the label `restamp`; nothing when the time of day went back. -/
def elapsed (tv stamp : Timeval) : Option Int :=
  let diff := clampUsec (tvsub tv stamp)
  if diff.tvSec > TV_SEC_MAX_VAL then some 0
  else if diff.tvSec < 0 then none
  else some (diff.tvSec * 1000000 + diff.tvUsec)

/-- The countermeasure reads the clock again, once and for all: from then on
receive times are read from the same clock. -/
def triptime (optLatency : Bool) (reply : Reply) : Int :=
  match elapsed reply.tv reply.stamp with
  | some time => time
  | none => if optLatency then 0 else (elapsed reply.now reply.stamp).getD 0

def latencyAfter (optLatency : Bool) (reply : Reply) : Bool :=
  optLatency || (elapsed reply.tv reply.stamp).isNone

/-- The interval that `update_interval` sets. -/
def nextInterval (uid : Nat) (rtt : UInt64) (rttAddend interval : Int) : Int :=
  let est := if rtt ≠ 0 then toInt32 (rtt / 8).toNat else toInt32 (interval * 1000)
  let next := (toInt32 (toInt32 (est + rttAddend) + 500)).tdiv 1000
  if uid ≠ 0 ∧ next < MIN_USER_INTERVAL_MS then MIN_USER_INTERVAL_MS else next

def updateInterval (rts : PingRts) : PingRts :=
  { rts with interval := nextInterval rts.uid rts.rtt rts.rttAddend rts.interval }

/-- The smoothed round-trip time, eight times over, after one more triptime. -/
def smoothedRtt (rtt : UInt64) (time : Int) : UInt64 :=
  if rtt = 0 then UInt64.ofInt time * 8 else rtt + (UInt64.ofInt time - rtt / 8)

/-- Enter the triptime of a reply with a good checksum. -/
def recordTriptime (rts : PingRts) (time : Int) : PingRts :=
  { rts with
    tsum := rts.tsum + time
    tsum2 := rts.tsum2 + time * time
    tmin := if time < rts.tmin then time else rts.tmin
    tmax := if time > rts.tmax then time else rts.tmax
    rtt := smoothedRtt rts.rtt time }

def noteLatency (rts : PingRts) (reply : Reply) : PingRts :=
  { rts with optLatency := latencyAfter rts.optLatency reply }

/-- The part of `gather_statistics` that a timed reply goes through. -/
def gatherTiming (rts : PingRts) (reply : Reply) : PingRts :=
  if reply.csfailed then noteLatency rts reply
  else if rts.optAdaptive then
    updateInterval (recordTriptime (noteLatency rts reply) (triptime rts.optLatency reply))
  else recordTriptime (noteLatency rts reply) (triptime rts.optLatency reply)

def countReceived (rts : PingRts) : PingRts := { rts with nreceived := rts.nreceived + 1 }

def countChecksum (rts : PingRts) : PingRts :=
  { rts with nchecksum := rts.nchecksum + 1, nreceived := rts.nreceived - 1 }

def countRepeat (rts : PingRts) : PingRts :=
  { rts with nrepeats := rts.nrepeats + 1, nreceived := rts.nreceived - 1 }

/-- The part of `gather_statistics` before the duplicate check, entered with every
reply counted as received. -/
def receiveReply (rts : PingRts) (reply : Reply) : PingRts :=
  let acked := if reply.csfailed then countReceived rts
    else acknowledge (countReceived rts) reply.seq
  if rts.timing ∧ reply.cc ≥ TIMED_LEN then gatherTiming acked reply else acked

def noteConfirm (rts : PingRts) : PingRts := { rts with confirm := rts.confirmFlag }

def gatherStatistics (rts : PingRts) (reply : Reply) : PingRts :=
  let rts := receiveReply rts reply
  noteConfirm <|
    if reply.csfailed then countChecksum rts
    else if rcvdTest rts reply.seq ≠ 0 then countRepeat rts
    else rcvdSet rts reply.seq

/-! ## What a reply changes -/

/-- A field that none of the steps before the duplicate check touches. The interval
is one of them outside adaptive mode. -/
theorem receiveReply_field {α : Type} (field : PingRts → α)
    (acknowledged : ∀ rts seq, field (acknowledge rts seq) = field rts)
    (noted : ∀ rts reply, field (noteLatency rts reply) = field rts)
    (recorded : ∀ rts time, field (recordTriptime rts time) = field rts) (rts : PingRts)
    (reply : Reply)
    (updated : rts.optAdaptive = true → ∀ rts, field (updateInterval rts) = field rts) :
    field (receiveReply rts reply) = field (countReceived rts) := by
  have htiming : ∀ acked : PingRts, acked.optAdaptive = rts.optAdaptive →
      field (gatherTiming acked reply) = field acked := by
    intro acked hsame
    simp only [gatherTiming]
    split
    · exact noted acked reply
    split
    · next hadaptive => rw [updated (hsame ▸ hadaptive), recorded, noted]
    · rw [recorded, noted]
  simp only [receiveReply]
  cases reply.csfailed with
  | true =>
      simp only [if_true]
      split
      · exact htiming (countReceived rts) rfl
      · rfl
  | false =>
      simp only [Bool.false_eq_true, if_false]
      split
      · rw [htiming (acknowledge (countReceived rts) reply.seq) rfl, acknowledged]
      · exact acknowledged _ _

section Frame

variable (rts : PingRts) (reply : Reply)

@[simp] theorem receiveReply_ntransmitted :
    (receiveReply rts reply).ntransmitted = rts.ntransmitted :=
  receiveReply_field (·.ntransmitted) (fun _ _ => rfl) (fun _ _ => rfl) (fun _ _ => rfl) rts
    reply fun _ _ => rfl

@[simp] theorem receiveReply_nreceived :
    (receiveReply rts reply).nreceived = rts.nreceived + 1 :=
  receiveReply_field (·.nreceived) (fun _ _ => rfl) (fun _ _ => rfl) (fun _ _ => rfl) rts
    reply fun _ _ => rfl

@[simp] theorem receiveReply_nrepeats : (receiveReply rts reply).nrepeats = rts.nrepeats :=
  receiveReply_field (·.nrepeats) (fun _ _ => rfl) (fun _ _ => rfl) (fun _ _ => rfl) rts
    reply fun _ _ => rfl

@[simp] theorem receiveReply_nchecksum : (receiveReply rts reply).nchecksum = rts.nchecksum :=
  receiveReply_field (·.nchecksum) (fun _ _ => rfl) (fun _ _ => rfl) (fun _ _ => rfl) rts
    reply fun _ _ => rfl

@[simp] theorem marked_receiveReply (seq : UInt16) :
    marked (receiveReply rts reply) seq = marked rts seq :=
  receiveReply_field (marked · seq) (fun _ _ => rfl) (fun _ _ => rfl) (fun _ _ => rfl) rts
    reply fun _ _ => rfl

end Frame

/-- The three ways in which a reply leaves `gather_statistics`. -/
theorem gatherStatistics_cases (rts : PingRts) (reply : Reply) :
    (reply.csfailed = true ∧
      gatherStatistics rts reply = noteConfirm (countChecksum (receiveReply rts reply))) ∨
    (reply.csfailed = false ∧ marked rts reply.seq = true ∧
      gatherStatistics rts reply = noteConfirm (countRepeat (receiveReply rts reply))) ∨
    (reply.csfailed = false ∧ marked rts reply.seq = false ∧
      gatherStatistics rts reply = noteConfirm (rcvdSet (receiveReply rts reply) reply.seq)) := by
  have htest : rcvdTest (receiveReply rts reply) reply.seq = 0 ↔ marked rts reply.seq = false := by
    rw [rcvdTest_eq_zero, marked_receiveReply]
  simp only [gatherStatistics]
  cases hbad : reply.csfailed with
  | true => exact .inl ⟨rfl, rfl⟩
  | false =>
      cases hmark : marked rts reply.seq with
      | true =>
          refine .inr (.inl ⟨rfl, rfl, congrArg noteConfirm ?_⟩)
          rw [hmark] at htest
          rw [if_neg Bool.false_ne_true, if_pos fun h => absurd (htest.mp h) (by decide)]
      | false =>
          refine .inr (.inr ⟨rfl, rfl, congrArg noteConfirm ?_⟩)
          rw [if_neg Bool.false_ne_true, if_neg (not_not.mpr (htest.mpr hmark))]

/-- A field that no reply touches, except perhaps through the adaptive interval. For
a field of the record that is seen by evaluation. -/
structure Steady {α : Type} (field : PingRts → α) : Prop where
  received : ∀ rts, field (countReceived rts) = field rts := by intros; rfl
  checksum : ∀ rts, field (countChecksum rts) = field rts := by intros; rfl
  repeated : ∀ rts, field (countRepeat rts) = field rts := by intros; rfl
  confirmed : ∀ rts, field (noteConfirm rts) = field rts := by intros; rfl
  marked : ∀ rts seq, field (rcvdSet rts seq) = field rts := by intros; rfl
  acknowledged : ∀ rts seq, field (acknowledge rts seq) = field rts := by intros; rfl
  noted : ∀ rts reply, field (noteLatency rts reply) = field rts := by intros; rfl
  recorded : ∀ rts time, field (recordTriptime rts time) = field rts := by intros; rfl

theorem gatherStatistics_field {α : Type} (field : PingRts → α) (h : Steady field)
    (rts : PingRts) (reply : Reply)
    (updated : rts.optAdaptive = true → ∀ rts, field (updateInterval rts) = field rts) :
    field (gatherStatistics rts reply) = field rts := by
  have hreceive := (receiveReply_field field h.acknowledged h.noted h.recorded rts reply
    updated).trans (h.received rts)
  obtain ⟨-, hcase⟩ | ⟨-, -, hcase⟩ | ⟨-, -, hcase⟩ := gatherStatistics_cases rts reply
  · rw [hcase, h.confirmed, h.checksum, hreceive]
  · rw [hcase, h.confirmed, h.repeated, hreceive]
  · rw [hcase, h.confirmed, h.marked, hreceive]

section Counters

variable (rts : PingRts) (reply : Reply)

theorem gatherStatistics_ntransmitted :
    (gatherStatistics rts reply).ntransmitted = rts.ntransmitted := by
  obtain ⟨-, h⟩ | ⟨-, -, h⟩ | ⟨-, -, h⟩ := gatherStatistics_cases rts reply <;> rw [h] <;>
    exact receiveReply_ntransmitted rts reply

theorem gatherStatistics_nchecksum :
    (gatherStatistics rts reply).nchecksum = rts.nchecksum + reply.csfailed.toNat := by
  obtain ⟨hbad, h⟩ | ⟨hbad, -, h⟩ | ⟨hbad, -, h⟩ := gatherStatistics_cases rts reply <;>
    rw [h, hbad, ← receiveReply_nchecksum rts reply] <;> rfl

theorem gatherStatistics_nrepeats :
    (gatherStatistics rts reply).nrepeats =
      rts.nrepeats + (!reply.csfailed && marked rts reply.seq).toNat := by
  obtain ⟨hbad, h⟩ | ⟨hbad, hmark, h⟩ | ⟨hbad, hmark, h⟩ := gatherStatistics_cases rts reply
  · rw [h, hbad, ← receiveReply_nrepeats rts reply]
    rfl
  all_goals
    rw [h, hbad, hmark, ← receiveReply_nrepeats rts reply]
    rfl

/-- Counted, and counted again as not received, or counted for good. -/
theorem gatherStatistics_nreceived :
    (gatherStatistics rts reply).nreceived =
      rts.nreceived + (!reply.csfailed && !marked rts reply.seq).toNat := by
  have hfirst := receiveReply_nreceived rts reply
  obtain ⟨hbad, h⟩ | ⟨hbad, hmark, h⟩ | ⟨hbad, hmark, h⟩ := gatherStatistics_cases rts reply
  · rw [h, hbad]
    change (receiveReply rts reply).nreceived - 1 = rts.nreceived + 0
    omega
  · rw [h, hbad, hmark]
    change (receiveReply rts reply).nreceived - 1 = rts.nreceived + 0
    omega
  · rw [h, hbad, hmark]
    exact hfirst

/-- A good reply counts as received or as a duplicate. -/
theorem gatherStatistics_replies :
    (gatherStatistics rts reply).nreceived + (gatherStatistics rts reply).nrepeats =
      rts.nreceived + rts.nrepeats + (!reply.csfailed).toNat := by
  rw [gatherStatistics_nreceived, gatherStatistics_nrepeats]
  cases reply.csfailed <;> cases marked rts reply.seq <;> simp <;> omega

theorem marked_gatherStatistics (seq : UInt16) :
    marked (gatherStatistics rts reply) seq =
      (marked rts seq || (!reply.csfailed && decide (seq = reply.seq))) := by
  have hsame := marked_receiveReply rts reply seq
  obtain ⟨hbad, h⟩ | ⟨hbad, hmark, h⟩ | ⟨hbad, hmark, h⟩ := gatherStatistics_cases rts reply
  · rw [h, hbad]
    change marked (receiveReply rts reply) seq = _
    simp [hsame]
  · rw [h, hbad]
    change marked (receiveReply rts reply) seq = _
    by_cases heq : seq = reply.seq <;> simp_all
  · rw [h, hbad]
    change marked (rcvdSet (receiveReply rts reply) reply.seq) seq = _
    rw [marked_rcvdSet, hsame, Bool.or_comm]
    rfl

end Counters

/-! ## The times -/

theorem clampUsec_bounds (tv : Timeval) :
    0 ≤ (clampUsec tv).tvUsec ∧ (clampUsec tv).tvUsec < 1000000 := by
  rw [clampUsec]
  dsimp only
  split
  · decide
  split
  · decide
  · omega

/-- The clamps leave no negative time. -/
theorem elapsed_nonneg {tv stamp : Timeval} {time : Int} (h : elapsed tv stamp = some time) :
    0 ≤ time := by
  have husec := (clampUsec_bounds (tvsub tv stamp)).1
  simp only [elapsed] at h
  split at h
  · cases h
    exact Int.le_refl 0
  split at h
  · cases h
  · cases h
    omega

theorem triptime_nonneg (optLatency : Bool) (reply : Reply) : 0 ≤ triptime optLatency reply := by
  simp only [triptime]
  split
  · next time h => exact elapsed_nonneg h
  split
  · exact Int.le_refl 0
  · cases h : elapsed reply.now reply.stamp with
    | none => exact Int.le_refl 0
    | some time => exact elapsed_nonneg h

/-- The clamps leave no more than 2147 seconds and a part of the next one. -/
theorem elapsed_le {tv stamp : Timeval} {time : Int} (h : elapsed tv stamp = some time) :
    time ≤ 2147999999 := by
  have husec := (clampUsec_bounds (tvsub tv stamp)).2
  simp only [elapsed] at h
  split at h
  · cases h
    decide
  split at h
  · cases h
  next hsec _ =>
    cases h
    simp only [TV_SEC_MAX_VAL] at hsec
    omega

theorem triptime_le (optLatency : Bool) (reply : Reply) :
    triptime optLatency reply ≤ 2147999999 := by
  simp only [triptime]
  split
  · next time h => exact elapsed_le h
  split
  · decide
  · cases h : elapsed reply.now reply.stamp with
    | none => decide
    | some time => exact elapsed_le h

/-- The triptime that a reply contributes to the statistics, if it does. -/
def measured (rts : PingRts) (reply : Reply) : Option Int :=
  if rts.timing ∧ reply.cc ≥ TIMED_LEN ∧ reply.csfailed = false then
    some (triptime rts.optLatency reply)
  else none

/-- Entering a measured time, if there is one. -/
def entered (time : Option Int) (tmin tmax tsum : Int) : Int × Int × Int :=
  match time with
  | some time => (min tmin time, max tmax time, tsum + time)
  | none => (tmin, tmax, tsum)

def times (rts : PingRts) : Int × Int × Int := (rts.tmin, rts.tmax, rts.tsum)

theorem times_eq {rts : PingRts} {time : Option Int} {tmin tmax tsum : Int} :
    times rts = entered time tmin tmax tsum ↔
      rts.tmin = (entered time tmin tmax tsum).1 ∧
        rts.tmax = (entered time tmin tmax tsum).2.1 ∧
          rts.tsum = (entered time tmin tmax tsum).2.2 := by
  rw [times, Prod.ext_iff, Prod.ext_iff]

theorem times_recordTriptime (rts : PingRts) (time : Int) :
    times (recordTriptime rts time) = entered (some time) rts.tmin rts.tmax rts.tsum := by
  have hmin : (if time < rts.tmin then time else rts.tmin) = min rts.tmin time := by
    split <;> omega
  have hmax : (if time > rts.tmax then time else rts.tmax) = max rts.tmax time := by
    split <;> omega
  simp only [times, recordTriptime, entered, hmin, hmax]

theorem times_gatherTiming (rts : PingRts) (reply : Reply) :
    times (gatherTiming rts reply) =
      entered (if reply.csfailed then none else some (triptime rts.optLatency reply))
        rts.tmin rts.tmax rts.tsum := by
  simp only [gatherTiming]
  split
  · rfl
  split
  · exact times_recordTriptime (noteLatency rts reply) _
  · exact times_recordTriptime (noteLatency rts reply) _

/-- The time of a reply is entered behind the counters, if there is one. -/
theorem receiveReply_cases (rts : PingRts) (reply : Reply) :
    ∃ acked, (acked = countReceived rts ∨ acked = acknowledge (countReceived rts) reply.seq) ∧
      ((receiveReply rts reply = gatherTiming acked reply ∧
          measured rts reply =
            if reply.csfailed then none else some (triptime rts.optLatency reply)) ∨
        (receiveReply rts reply = acked ∧ measured rts reply = none)) := by
  refine ⟨if reply.csfailed then countReceived rts
    else acknowledge (countReceived rts) reply.seq, ?_, ?_⟩
  · split
    · exact .inl rfl
    · exact .inr rfl
  by_cases htimed : rts.timing = true ∧ reply.cc ≥ TIMED_LEN
  · refine .inl ⟨if_pos htimed, ?_⟩
    rw [measured]
    cases hbad : reply.csfailed with
    | true => exact if_neg fun h => absurd h.2.2 (by decide)
    | false => exact if_pos ⟨htimed.1, htimed.2, rfl⟩
  · exact .inr ⟨if_neg htimed, if_neg fun h => htimed ⟨h.1, h.2.1⟩⟩

theorem times_receiveReply (rts : PingRts) (reply : Reply) :
    times (receiveReply rts reply) =
      entered (measured rts reply) rts.tmin rts.tmax rts.tsum := by
  obtain ⟨acked, hacked, ⟨hreceived, hmeasured⟩ | ⟨hreceived, hmeasured⟩⟩ :=
    receiveReply_cases rts reply
  · rw [hreceived, hmeasured, times_gatherTiming]
    rcases hacked with rfl | rfl <;> rfl
  · rw [hreceived, hmeasured]
    rcases hacked with rfl | rfl <;> rfl

/-- The extrema and the sum after a reply. -/
theorem times_gatherStatistics (rts : PingRts) (reply : Reply) :
    times (gatherStatistics rts reply) =
      entered (measured rts reply) rts.tmin rts.tmax rts.tsum := by
  rw [← times_receiveReply]
  obtain ⟨-, h⟩ | ⟨-, -, h⟩ | ⟨-, -, h⟩ := gatherStatistics_cases rts reply <;> rw [h] <;> rfl

/-- The smoothed round-trip time after a reply. -/
def enteredRtt (time : Option Int) (rtt : UInt64) : UInt64 :=
  match time with
  | some time => smoothedRtt rtt time
  | none => rtt

theorem rtt_gatherTiming (rts : PingRts) (reply : Reply) :
    (gatherTiming rts reply).rtt =
      enteredRtt (if reply.csfailed then none else some (triptime rts.optLatency reply))
        rts.rtt := by
  simp only [gatherTiming]
  split
  · rfl
  split
  · rfl
  · rfl

theorem rtt_receiveReply (rts : PingRts) (reply : Reply) :
    (receiveReply rts reply).rtt = enteredRtt (measured rts reply) rts.rtt := by
  obtain ⟨acked, hacked, ⟨hreceived, hmeasured⟩ | ⟨hreceived, hmeasured⟩⟩ :=
    receiveReply_cases rts reply
  · rw [hreceived, hmeasured, rtt_gatherTiming]
    rcases hacked with rfl | rfl <;> rfl
  · rw [hreceived, hmeasured]
    rcases hacked with rfl | rfl <;> rfl

theorem gatherStatistics_rtt (rts : PingRts) (reply : Reply) :
    (gatherStatistics rts reply).rtt = enteredRtt (measured rts reply) rts.rtt := by
  rw [← rtt_receiveReply]
  obtain ⟨-, h⟩ | ⟨-, -, h⟩ | ⟨-, -, h⟩ := gatherStatistics_cases rts reply <;> rw [h] <;> rfl

/-- The sum of the squares after a reply. -/
def enteredSquare (time : Option Int) (tsum2 : Int) : Int :=
  match time with
  | some time => tsum2 + time * time
  | none => tsum2

theorem tsum2_gatherTiming (rts : PingRts) (reply : Reply) :
    (gatherTiming rts reply).tsum2 =
      enteredSquare (if reply.csfailed then none else some (triptime rts.optLatency reply))
        rts.tsum2 := by
  simp only [gatherTiming]
  split
  · rfl
  split
  · rfl
  · rfl

theorem tsum2_receiveReply (rts : PingRts) (reply : Reply) :
    (receiveReply rts reply).tsum2 = enteredSquare (measured rts reply) rts.tsum2 := by
  obtain ⟨acked, hacked, ⟨hreceived, hmeasured⟩ | ⟨hreceived, hmeasured⟩⟩ :=
    receiveReply_cases rts reply
  · rw [hreceived, hmeasured, tsum2_gatherTiming]
    rcases hacked with rfl | rfl <;> rfl
  · rw [hreceived, hmeasured]
    rcases hacked with rfl | rfl <;> rfl

theorem gatherStatistics_tsum2 (rts : PingRts) (reply : Reply) :
    (gatherStatistics rts reply).tsum2 = enteredSquare (measured rts reply) rts.tsum2 := by
  rw [← tsum2_receiveReply]
  obtain ⟨-, h⟩ | ⟨-, -, h⟩ | ⟨-, -, h⟩ := gatherStatistics_cases rts reply <;> rw [h] <;> rfl

theorem average_toNat (rtt : UInt64) : (rtt / 8).toNat = rtt.toNat / 8 := UInt64.toNat_div rtt 8

theorem toNat_eq_zero {rtt : UInt64} : rtt.toNat = 0 ↔ rtt = 0 := by
  rw [← UInt64.toNat_inj]
  exact Iff.rfl

/-- With an average of triptimes the 64-bit arithmetic does not wrap. -/
theorem smoothedRtt_toNat {rtt : UInt64} {time : Int} (small : rtt.toNat / 8 ≤ 2147999999)
    (nonneg : 0 ≤ time) (le : time ≤ 2147999999) :
    ((smoothedRtt rtt time).toNat : Int) =
      if rtt = 0 then 8 * time else (rtt.toNat : Int) - (rtt.toNat : Int) / 8 + time := by
  have htime : (UInt64.ofInt time).toNat = time.toNat := by
    rw [UInt64.ofInt, UInt64.toNat_ofNat']
    omega
  have hquotient := average_toNat rtt
  rw [smoothedRtt]
  split
  · rw [UInt64.toNat_mul, htime]
    change ((time.toNat * 8 % 2 ^ 64 : Nat) : Int) = _
    omega
  · rw [UInt64.toNat_add, UInt64.toNat_sub, htime, hquotient]
    omega

end Coping
