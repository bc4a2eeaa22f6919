import Coping.Library.Machine
import Coping.Ping.Probe
import Coping.Ping.Statistics

/-!
# Duplicate detection

Runs of `send_probe`, `advance_ntransmitted` and `gather_statistics`. The log of a
run says which sequence numbers were probed and which replies came; it knows
nothing of the table. `verdict` reads from it alone what a reply is, and
`accounted` shows that the counters and the marks of the program agree with it.
-/

namespace Coping.Duplicates

inductive Event where
  /-- A call of `send_probe`, whatever the kernel answers. -/
  | probe (family : Family) (now : Timeval)
  /-- The probe is taken as transmitted. -/
  | advance
  | reply (r : Reply)

inductive Entry where
  | probed (seq : UInt16)
  | replied (seq : UInt16) (csfailed : Bool)

inductive Verdict where
  | corrupted
  | first
  | repeated
  deriving DecidableEq

/-- No good reply with this sequence number since the last probe with it. The log
is read from its newest entry on. -/
def fresh (seq : UInt16) : List Entry → Bool
  | [] => true
  | .probed seq' :: log => decide (seq' = seq) || fresh seq log
  | .replied seq' csfailed :: log => !(!csfailed && decide (seq' = seq)) && fresh seq log

/-- What a reply is, given the log before it. -/
def verdict (log : List Entry) (seq : UInt16) (csfailed : Bool) : Verdict :=
  match csfailed, fresh seq log with
  | true, _ => .corrupted
  | false, true => .first
  | false, false => .repeated

/-- The number of replies with a verdict. -/
def tally (v : Verdict) : List Entry → Nat
  | [] => 0
  | .probed _ :: log => tally v log
  | .replied seq csfailed :: log =>
      tally v log + (decide (verdict log seq csfailed = v)).toNat

/-- The number of replies. -/
def replies : List Entry → Nat
  | [] => 0
  | .probed _ :: log => replies log
  | .replied _ _ :: log => replies log + 1

/-- The runtime state and the log so far, newest entry first. -/
structure Traffic where
  rts : PingRts
  log : List Entry := []

def step (s : Traffic) : Event → Traffic
  | .probe family now =>
      { rts := (family.sendProbe s.rts now).1
        log := .probed (low16 (s.rts.ntransmitted + 1)) :: s.log }
  | .advance => { s with rts := advanceNtransmitted s.rts }
  | .reply r =>
      { rts := gatherStatistics s.rts r, log := .replied r.seq r.csfailed :: s.log }

def machine : Machine Traffic Event := Machine.ofTotal step

/-- The sequence number that an event is about. -/
def Event.concerns (s : Traffic) (seq : UInt16) : Event → Prop
  | .probe _ _ => seq = low16 (s.rts.ntransmitted + 1)
  | .advance => False
  | .reply r => seq = r.seq

/-- Counters and marks say what the log says, and go on doing so. -/
structure Accounted (s : Traffic) : Prop where
  nchecksum : s.rts.nchecksum = tally .corrupted s.log
  nreceived : s.rts.nreceived = tally .first s.log
  nrepeats : s.rts.nrepeats = tally .repeated s.log
  total : s.rts.nreceived + s.rts.nrepeats + s.rts.nchecksum = replies s.log
  mark : ∀ seq, rcvdTest s.rts seq = 0 ↔ fresh seq s.log = true
  first : ∀ r : Reply, r.csfailed = false → fresh r.seq s.log = true →
    (gatherStatistics s.rts r).nreceived = s.rts.nreceived + 1 ∧
      (gatherStatistics s.rts r).nrepeats = s.rts.nrepeats
  repeated : ∀ r : Reply, r.csfailed = false → fresh r.seq s.log = false →
    (gatherStatistics s.rts r).nreceived = s.rts.nreceived ∧
      (gatherStatistics s.rts r).nrepeats = s.rts.nrepeats + 1
  corrupted : ∀ r : Reply, r.csfailed = true →
    (gatherStatistics s.rts r).nreceived = s.rts.nreceived ∧
      (gatherStatistics s.rts r).nrepeats = s.rts.nrepeats
  apart : ∀ e seq, ¬e.concerns s seq →
    (rcvdTest (step s e).rts seq = 0 ↔ rcvdTest s.rts seq = 0)

/-! ## The log determines the counters -/

section Verdict

variable (log : List Entry) (seq : UInt16) (csfailed : Bool)

theorem verdict_eq_corrupted :
    decide (verdict log seq csfailed = .corrupted) = csfailed := by
  unfold verdict
  split <;> rfl

theorem verdict_eq_first :
    decide (verdict log seq csfailed = .first) = (!csfailed && fresh seq log) := by
  unfold verdict
  split <;> simp_all

theorem verdict_eq_repeated :
    decide (verdict log seq csfailed = .repeated) = (!csfailed && !fresh seq log) := by
  unfold verdict
  split <;> simp_all

end Verdict

theorem tally_total (log : List Entry) :
    tally .first log + tally .repeated log + tally .corrupted log = replies log := by
  induction log with
  | nil => rfl
  | cons entry log ih =>
      cases entry with
      | probed seq => exact ih
      | replied seq csfailed =>
          simp only [tally, replies, ← ih]
          cases verdict log seq csfailed <;> simp <;> omega

/-- What the table and the counters have to do with the log. -/
structure Kept (s : Traffic) : Prop where
  nchecksum : s.rts.nchecksum = tally .corrupted s.log
  nreceived : s.rts.nreceived = tally .first s.log
  nrepeats : s.rts.nrepeats = tally .repeated s.log
  mark : ∀ seq, marked s.rts seq = !fresh seq s.log

theorem Kept.init (options : PingRts) : Kept { rts := options.start } where
  nchecksum := rfl
  nreceived := rfl
  nrepeats := rfl
  mark _ := Bitmap.contains_empty _

theorem Kept.probe {s : Traffic} (h : Kept s) (family : Family) (now : Timeval) :
    Kept (step s (.probe family now)) where
  nchecksum := (family.sendProbe_nchecksum s.rts now).trans h.nchecksum
  nreceived := (family.sendProbe_nreceived s.rts now).trans h.nreceived
  nrepeats := (family.sendProbe_nrepeats s.rts now).trans h.nrepeats
  mark seq := by
    change marked (family.sendProbe s.rts now).1 seq =
      !(decide (low16 (s.rts.ntransmitted + 1) = seq) || fresh seq s.log)
    rw [Family.marked_sendProbe, h.mark, Bool.not_or, decide_eq_decide.mpr eq_comm]

theorem Kept.advance {s : Traffic} (h : Kept s) : Kept (step s .advance) where
  nchecksum := h.nchecksum
  nreceived := h.nreceived
  nrepeats := h.nrepeats
  mark := h.mark

theorem Kept.reply {s : Traffic} (h : Kept s) (r : Reply) : Kept (step s (.reply r)) where
  nchecksum := by
    change (gatherStatistics s.rts r).nchecksum = _
    rw [gatherStatistics_nchecksum, h.nchecksum]
    simp only [Duplicates.step, tally, verdict_eq_corrupted]
  nreceived := by
    change (gatherStatistics s.rts r).nreceived = _
    rw [gatherStatistics_nreceived, h.nreceived, h.mark, Bool.not_not]
    simp only [Duplicates.step, tally, verdict_eq_first]
  nrepeats := by
    change (gatherStatistics s.rts r).nrepeats = _
    rw [gatherStatistics_nrepeats, h.nrepeats, h.mark]
    simp only [Duplicates.step, tally, verdict_eq_repeated]
  mark seq := by
    change marked (gatherStatistics s.rts r) seq =
      !(!(!r.csfailed && decide (r.seq = seq)) && fresh seq s.log)
    rw [marked_gatherStatistics, h.mark, decide_eq_decide.mpr (eq_comm (a := seq))]
    cases r.csfailed <;> cases decide (r.seq = seq) <;> cases fresh seq s.log <;> rfl

theorem Kept.step {s : Traffic} (h : Kept s) (e : Event) : Kept (step s e) := by
  cases e with
  | probe family now => exact h.probe family now
  | advance => exact h.advance
  | reply r => exact h.reply r

/-- An event changes the mark of the number it is about and no other. -/
theorem marked_step_of_apart (s : Traffic) (e : Event) (seq : UInt16)
    (apart : ¬e.concerns s seq) : marked (step s e).rts seq = marked s.rts seq := by
  cases e with
  | probe family now =>
      change marked (family.sendProbe s.rts now).1 seq = _
      have hne : seq ≠ low16 (s.rts.ntransmitted + 1) := apart
      rw [Family.marked_sendProbe, decide_eq_false hne]
      rfl
  | advance => rfl
  | reply r =>
      change marked (gatherStatistics s.rts r) seq = _
      have hne : seq ≠ r.seq := apart
      rw [marked_gatherStatistics, decide_eq_false hne, Bool.and_false, Bool.or_false]

theorem Kept.accounted {s : Traffic} (h : Kept s) : Accounted s where
  nchecksum := h.nchecksum
  nreceived := h.nreceived
  nrepeats := h.nrepeats
  total := by rw [h.nreceived, h.nrepeats, h.nchecksum, tally_total]
  mark seq := by rw [rcvdTest_eq_zero, h.mark, Bool.not_eq_eq_eq_not, Bool.not_false]
  first r good isFresh := by
    rw [gatherStatistics_nreceived, gatherStatistics_nrepeats, h.mark, good, isFresh]
    exact ⟨rfl, rfl⟩
  repeated r good isOld := by
    rw [gatherStatistics_nreceived, gatherStatistics_nrepeats, h.mark, good, isOld]
    exact ⟨rfl, rfl⟩
  corrupted r bad := by
    rw [gatherStatistics_nreceived, gatherStatistics_nrepeats, bad]
    exact ⟨rfl, rfl⟩
  apart e seq apart := by
    rw [rcvdTest_eq_zero, rcvdTest_eq_zero, marked_step_of_apart s e seq apart]

/-- Every reply is counted once and for what it is, in every order of probes and
replies and across any number of reuses of a sequence number. -/
theorem replies_accounted (options : PingRts) (es : List Event) :
    machine.Always Accounted { rts := options.start } es := by
  have kept : machine.Always Kept { rts := options.start } es := by
    refine Machine.Always.of_invariant (G := fun _ _ => True) (Kept.init options) ?_ ?_
    · intro s e t hs _ hstep
      cases hstep
      exact hs.step e
    · exact Machine.guarded_of_forall fun _ _ => trivial
  exact kept.mono fun _ => Kept.accounted

end Coping.Duplicates
