import Coping.Ping.Finish
import Coping.Ping.Reply
import Coping.Ping.SendLoop

/-!
# The main loop

`main_loop` of `ping_common.c` with its control flow, up to the return of `finish`. An event is
what one call brings: of `pinger`, of `poll`, of `recvmsg`. A signal can arrive between any two of
them. What is printed is left out, and with it the snapshots of `status` and the errors with which
the program ends under `-j` when a text has no room in a JSON buffer; these are in `JsonLoop`.
-/

namespace Coping

open CInt

/-- Where the program is. -/
inductive Stage where
  /-- In the `do`-`while`. -/
  | sending
  /-- In front of `poll`. -/
  | polling
  /-- In front of `recvmsg`. -/
  | receiving (recvError : Bool)
  /-- Behind the loop. -/
  | left
  /-- Behind `finish`, which has returned `status`. -/
  | finished (status : Bool)
  deriving DecidableEq

structure MainState where
  loop : LoopState
  stage : Stage
  /-- The route that `pr_options` keeps. -/
  oldRr : List UInt8 := []
  /-- The static variable of `install_filter`. -/
  once : Bool := false

def MainState.rts (s : MainState) : PingRts := s.loop.ping.rts

/-- What the program is run with, other than its options. -/
structure MainContext where
  family : Family
  sock : SockType
  prAddr : PrAddr
  /-- `sysconf(_SC_CLK_TCK)`. -/
  hz : Int := 100

inductive MainEvent where
  /-- `sigexit`. -/
  | signal
  /-- A call of `pinger`. -/
  | send (c : PingerCall)
  /-- What `poll` returns: nothing to be read, or something, with an error or without. -/
  | poll (revents : Option Bool)
  /-- `recvmsg` returns a packet. -/
  | packet (p : Packet)
  /-- `recvmsg` fails. -/
  | failed (errno : Int) (queue : ErrorQueue)
  /-- The call of `finish`. -/
  | finish

/-- The check of the exit conditions. -/
def exits (rts : PingRts) : Bool :=
  rts.exiting || (rts.npackets ≠ 0 && rts.nreceived + rts.nerrors ≥ rts.npackets) ||
    (rts.deadline ≠ 0 && rts.nerrors ≠ 0)

/-- The top of the outer loop. -/
def MainState.top (s : MainState) : MainState :=
  { s with stage := if exits s.rts then .left else .sending }

/-- The end of the inner loop. -/
def MainState.again (s : MainState) (recvError : Bool) : MainState :=
  -- If nothing is in flight, "break" returns us to pinger.
  if inFlight s.rts = 0 then s.top else { s with stage := .receiving recvError }

def MainState.withRts (s : MainState) (rts : PingRts) : MainState :=
  { s with loop := { s.loop with ping := { s.loop.ping with rts := rts } } }

/-- The time to wait is no longer than a tick of the clock. -/
def veryShort (hz next : Int) : Bool :=
  if (1000 : Int).tmod hz = 0 then next ≤ (1000 : Int).tdiv hz
  else next < intMax.tdiv hz ∧ next * hz ≤ 1000

/-- Where the program waits for a packet: in `poll`, or in `recvmsg`, which does not wait when there
is no time for it and nothing is in flight. -/
def waitStage (hz : Int) (settings : Settings) (rts : PingRts) (next : Int) : Stage :=
  if rts.optAdaptive ∨ settings.optFloodPoll ∨ next < schint rts.interval then
    -- When spinning, no reasons to poll.
    let spins := veryShort hz next ∧ inFlight rts = 0
    if ¬spins ∧ (rts.optAdaptive ∨ settings.optFloodPoll ∨ rts.interval ≠ 0) then .polling
    else .receiving false
  else .receiving false

/-- `install_filter`, where it is called: its static variable. -/
def installFilter (sock : SockType) (once notOurs : Bool) : Bool :=
  once || (notOurs && decide (sock = .raw))

section Step

variable (ctx : MainContext) (settings : Settings)

/-- The end of the `do`-`while`, behind a call of `pinger`. -/
def mainSend (s : MainState) (c : PingerCall) : Option MainState :=
  (sendPass ctx.family ctx.sock s.loop c).map fun pass =>
    { s with
      loop := pass.state
      stage := if pass.next ≤ (0 : Int) then .sending
        else waitStage ctx.hz settings pass.state.ping.rts pass.next }

def mainPacket (s : MainState) (recvError : Bool) (p : Packet) : MainState :=
  let parsed := ctx.family.parseReply ctx.prAddr settings ctx.sock s.rts s.oldRr p
  { s.withRts parsed.rts with
    oldRr := parsed.oldRr
    once := installFilter ctx.sock s.once parsed.notOurs }.again recvError

def mainFailed (s : MainState) (recvError : Bool) (errno : Int) (queue : ErrorQueue) :
    Option MainState :=
  if (errno = EAGAIN ∧ recvError = false) ∨ errno = EINTR then some s.top
  else
    (ctx.family.receiveErrorMsg s.rts ctx.sock errno queue).map fun r =>
      if r.result = 0 ∧ r.errno ≠ 0 then (s.withRts r.rts).top
      else
        { s.withRts r.rts with
          once := installFilter ctx.sock s.once (r.result = 0) }.again false

/-- The program from the first check of the exit conditions to the return of `finish`. -/
def mainMachine : Machine MainState MainEvent where
  step s
    | .signal => some (s.withRts { s.rts with exiting := true })
    | .send c => if s.stage = .sending then mainSend ctx settings s c else none
    | .poll revents =>
        if s.stage = .polling then
          some (match revents with
            | none => s.top
            | some pollerr => { s with stage := .receiving pollerr })
        else none
    | .packet p =>
        match s.stage with
        | .receiving recvError => some (mainPacket ctx settings s recvError p)
        | _ => none
    | .failed errno queue =>
        match s.stage with
        | .receiving recvError => mainFailed ctx s recvError errno queue
        | _ => none
    | .finish =>
        if s.stage = .left then some { s with stage := .finished (finishStatus s.rts) } else none

end Step

/-- The state in which `main_loop` is entered. -/
def mainStart (options : PingRts) : MainState :=
  MainState.top { loop := { ping := { rts := options.start } }, stage := .sending }

end Coping
