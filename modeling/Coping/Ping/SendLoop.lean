import Coping.Library.Machine
import Coping.Ping.Pinger

/-!
# The loop around the pinger

`schedule_exit` of `ping.h` with `__schedule_exit` of `ping_common.c`, and the
`do`-`while` of `main_loop` that calls `pinger` until there is something to wait for.
The static `waittime` stands beside the state of the pinger. The timer that
`__schedule_exit` starts is no part of the loop: its signal ends the program.
-/

namespace Coping

open CInt

structure LoopState where
  ping : PingState
  waittime : Int := 0

/-- Everything is sent, and no deadline is set. -/
def allSent (rts : PingRts) : Prop :=
  rts.npackets ≠ 0 ∧ rts.ntransmitted ≥ rts.npackets ∧ rts.deadline = 0

instance (rts : PingRts) : Decidable (allSent rts) :=
  inferInstanceAs (Decidable (_ ∧ _ ∧ _))

/-- With everything sent there is nothing due. -/
theorem pinger_allSent {family : Family} {sock : SockType} {p : PingState} {c : PingerCall}
    (all : allSent p.rts) :
    pinger family sock p c = some { state := p, ending := .idle, wait := 1000 } := by
  rw [pinger, if_pos (.inr all)]

/-- How long `__schedule_exit` waits for the last replies, in microseconds. -/
def exitWaittime (rts : PingRts) : Int :=
  if rts.nreceived ≠ 0 then
    let waittime := toUInt64 (2 * rts.tmax)
    if waittime < toUInt64 (1000 * toUInt64 rts.interval) then
      toUInt64 (toInt32 (1000 * rts.interval))
    else waittime
  else rts.lingertime

/-- `__schedule_exit`: the time to wait and `waittime`. -/
def exitScheduled (rts : PingRts) (waittime next : Int) : Int × Int :=
  if waittime ≠ 0 then (next, waittime)
  else
    let waittime := exitWaittime rts
    if next < 0 ∨ next < waittime / 1000 then (toInt32 (waittime / 1000), waittime)
    else (next, waittime)

/-- The product that `__schedule_exit` computes in `int`, where it does. -/
def exitProduct (rts : PingRts) : Option Int :=
  if rts.nreceived ≠ 0 ∧ toUInt64 (2 * rts.tmax) < toUInt64 (1000 * toUInt64 rts.interval) then
    some (1000 * rts.interval)
  else none

/-- The timer that `__schedule_exit` starts, `it.it_value`. -/
def exitTimer (rts : PingRts) (waittime : Int) : Option Timeval :=
  if waittime ≠ 0 then none
  else
    let waittime := exitWaittime rts
    some { tvSec := waittime / 1000000, tvUsec := waittime % 1000000 }

def scheduleExit (rts : PingRts) (waittime next : Int) : Int × Int :=
  if allSent rts then exitScheduled rts waittime next else (next, waittime)

/-- What one pass of the `do`-`while` leaves: the state and `next`. -/
structure Pass where
  state : LoopState
  next : Int

def sendPass (family : Family) (sock : SockType) (s : LoopState) (c : PingerCall) :
    Option Pass :=
  (pinger family sock s.ping c).map fun r =>
    let exit := scheduleExit r.state.rts s.waittime r.wait
    { state := { ping := r.state, waittime := exit.2 }, next := exit.1 }

/-- The `do`-`while`: the call behind which it is left is refused. -/
def sendLoop (family : Family) (sock : SockType) : Machine LoopState PingerCall where
  step s c :=
    (sendPass family sock s c).bind fun pass =>
      if pass.next ≤ 0 then some pass.state else none

/-- `main_loop`, pass by pass and message by message, in any order. -/
def mainLoop (family : Family) (sock : SockType) : Machine LoopState LoopEvent where
  step s
    | .call c => (sendPass family sock s c).map (·.state)
    | .reply r => some { s with ping := { s.ping with rts := gatherStatistics s.ping.rts r } }
    | .error errno queue =>
        (family.receiveErrorMsg s.ping.rts sock errno queue).map fun r =>
          { s with ping := { s.ping with rts := r.rts } }

end Coping
