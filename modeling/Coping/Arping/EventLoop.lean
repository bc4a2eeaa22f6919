import Coping.Arping.Reply
import Coping.Library.Machine

/-!
# The event loop of arping

`event_loop` and `finish` of `arping.c`. One event is one pass of the loop: what `poll`
reports, and what is then read from the descriptors, in their order. A descriptor that makes
the loop end does not keep those behind it from being served.
-/

namespace Coping.Arping

open CInt CFormat

/-- What `finish` prints. -/
def finishText (ctl : RunState) : List UInt8 :=
  if ctl.quiet then []
  else
    ascii "Sent " ++ decimal ctl.sent ++ ascii " probes (" ++ decimal ctl.brdSent ++
      ascii " broadcast(s))\n" ++ ascii "Received " ++ decimal ctl.received ++
      ascii " response(s)" ++
      (if ctl.brdRecv ≠ 0 ∨ ctl.reqRecv ≠ 0 then
        ascii " (" ++
          (if ctl.reqRecv ≠ 0 then decimal ctl.reqRecv ++ ascii " request(s)" else []) ++
          (if ctl.brdRecv ≠ 0 then
            (if ctl.reqRecv ≠ 0 then ascii ", " else []) ++ decimal ctl.brdRecv ++
              ascii " broadcast(s)"
          else []) ++
          ascii ")"
      else []) ++
      ascii "\n"

/-- The exit code of `finish`. -/
def finishCode (ctl : RunState) : Int :=
  if ctl.dad then if ctl.received ≠ 0 then 1 else 0
  else if ctl.unsolicited then 0
  else if ctl.timeout ≠ 0 ∧ ctl.count > 0 ∧ ¬ctl.quitOnReply then
    if ctl.count ≤ ctl.received then 0 else 1
  else if ctl.received ≠ 0 then 0 else 1

/-! ## The descriptors -/

inductive SignalRead where
  | failed
  /-- `SIGINT`, `SIGQUIT` or `SIGTERM`. -/
  | terminating
  | unexpected
  deriving DecidableEq

inductive TimerRead where
  | failed
  /-- How often the timer has expired, and the clock and the success of the next probe. -/
  | expired (exp : UInt64) (now : Timespec) (success : Bool)

inductive SocketRead where
  | failed (netdown : Bool)
  | packet (ts : Timespec) (p : Arrival)

/-- The descriptors that are ready. -/
structure Ready where
  signal : Option SignalRead := none
  timer : Option TimerRead := none
  timeout : Bool := false
  socket : Option SocketRead := none

inductive Event where
  | pollFailed (again : Bool)
  | ready (r : Ready)

/-- The packet that is received in a pass. -/
def Event.packet : Event → Option (Timespec × Arrival)
  | .ready { socket := some (.packet ts p), .. } => some (ts, p)
  | _ => none

inductive Phase where
  | polling
  /-- `finish` has been called. -/
  | finished
  /-- The network is down. -/
  | netdown
  deriving DecidableEq

structure EventLoopState where
  ctl : RunState
  totalExpires : UInt64 := 1
  phase : Phase

/-- The value of `event_loop`. -/
def EventLoopState.returned (s : EventLoopState) : Option Int :=
  match s.phase with
  | .polling => none
  | .finished => some (finishCode s.ctl)
  | .netdown => some 2

/-- `POLLFD_TIMER`: another probe, unless there have been enough. -/
def onTimer (ctl : RunState) (totalExpires : UInt64) :
    Option TimerRead → Option (RunState × UInt64 × Bool)
  | none => some (ctl, totalExpires, false)
  | some .failed => some (ctl, totalExpires, false)
  | some (.expired exp now success) =>
      if 0 < ctl.count ∧ ctl.count.toNat < (totalExpires + exp).toNat then
        some (ctl, totalExpires + exp, true)
      else (sendPack ctl now success).map fun ctl => (ctl, totalExpires + exp, false)

/-- The top of the loop. -/
def loopTop (exitLoop : Bool) (ctl : RunState) (totalExpires : UInt64) : EventLoopState where
  ctl := ctl
  totalExpires := totalExpires
  phase :=
    if exitLoop ∨ (ctl.sent = ctl.count ∧ ctl.unsolicited) then .finished else .polling

/-- `POLLFD_SOCKET`. -/
def onSocket (exitLoop : Bool) (ctl : RunState) (totalExpires : UInt64) :
    Option SocketRead → Option EventLoopState
  | none => some (loopTop exitLoop ctl totalExpires)
  | some (.failed netdown) =>
      if netdown then some { ctl := ctl, totalExpires := totalExpires, phase := .netdown }
      else some (loopTop exitLoop ctl totalExpires)
  | some (.packet ts p) =>
      (recvPack ctl ts p).map fun (ctl, _, returned) =>
        loopTop (exitLoop || returned = .finalPacks) ctl totalExpires

/-- The descriptors in their order. -/
def serve (s : EventLoopState) (r : Ready) : Option EventLoopState := do
  let (ctl, totalExpires, enough) ← onTimer s.ctl s.totalExpires r.timer
  onSocket (r.signal = some .terminating || enough || r.timeout) ctl totalExpires r.socket

/-- The first probe. Nothing has been counted before it. -/
def start (options : RunState) (now : Timespec) (success : Bool) : Option EventLoopState :=
  (sendPack
    { options with
      last := {}
      sent := 0
      brdSent := 0
      received := 0
      brdRecv := 0
      reqRecv := 0
      unicasting := false } now success).map fun ctl => loopTop false ctl 1

def eventLoop : Machine EventLoopState Event where
  step s e :=
    match s.phase, e with
    | .polling, .pollFailed again => some (loopTop (!again) s.ctl s.totalExpires)
    | .polling, .ready r => serve s r
    | _, _ => none

theorem onTimer_eq {ctl ctl' : RunState} {total total' : UInt64} {read : Option TimerRead}
    {enough : Bool} (h : onTimer ctl total read = some (ctl', total', enough)) :
    ∃ last sent brdSent, ctl' = { ctl with last := last, sent := sent, brdSent := brdSent } := by
  rcases read with - | - | ⟨exp, now, success⟩
  · cases h
    exact ⟨_, _, _, rfl⟩
  · cases h
    exact ⟨_, _, _, rfl⟩
  · rw [onTimer] at h
    split at h
    · cases h
      exact ⟨_, _, _, rfl⟩
    · obtain ⟨probed, hsend, hsame⟩ := Option.map_eq_some_iff.mp h
      cases hsame
      exact sendPack_eq hsend

/-- What a pass of the loop is: perhaps a probe, and perhaps a packet. -/
theorem eventLoop_cases {s t : EventLoopState} {e : Event} (h : eventLoop.step s e = some t) :
    s.phase = .polling ∧ ∃ last sent brdSent,
      (e.packet = none ∧ t.ctl = { s.ctl with last := last, sent := sent, brdSent := brdSent }) ∨
      (∃ ts p r, e.packet = some (ts, p) ∧
        recvPack { s.ctl with last := last, sent := sent, brdSent := brdSent } ts p = some r ∧
          t.ctl = r.1 ∧ (r.2.2 = .finalPacks → t.phase = .finished)) := by
  cases hphase : s.phase with
  | polling =>
      refine ⟨rfl, ?_⟩
      cases e with
      | pollFailed again =>
          simp only [eventLoop, hphase] at h
          cases h
          exact ⟨_, _, _, .inl ⟨rfl, rfl⟩⟩
      | ready r =>
          simp only [eventLoop, hphase] at h
          obtain ⟨signal, timer, timeout, socket⟩ := r
          obtain ⟨⟨ctl, total, enough⟩, htimer, hsocket⟩ := Option.bind_eq_some_iff.mp h
          obtain ⟨last, sent, brdSent, rfl⟩ := onTimer_eq htimer
          dsimp only at hsocket
          refine ⟨last, sent, brdSent, ?_⟩
          rcases socket with - | netdown | ⟨ts, p⟩
          · cases hsocket
            exact .inl ⟨rfl, rfl⟩
          · rw [onSocket] at hsocket
            split at hsocket
            · cases hsocket
              exact .inl ⟨rfl, rfl⟩
            · cases hsocket
              exact .inl ⟨rfl, rfl⟩
          · obtain ⟨⟨received, line, returned⟩, hrecv, htop⟩ := Option.map_eq_some_iff.mp hsocket
            cases htop
            refine .inr ⟨ts, p, _, rfl, hrecv, rfl, ?_⟩
            rintro rfl
            simp [loopTop]
  | finished => simp [eventLoop, hphase] at h
  | netdown => simp [eventLoop, hphase] at h

end Coping.Arping
