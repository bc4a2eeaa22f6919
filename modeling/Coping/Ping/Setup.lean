import Coping.Library.Machine
import Coping.Ping.Probe

/-!
# From the command line to the main loop

The options that bear on the interval, the checks of `ping4_run` and `ping6_run` on
the destination, and the parameter checks of `setup`. A run that exits with an error
has no result. Of the socket calls on the way only those are kept that can end the
run; the kernel enters as the addresses it takes for broadcast ones, those it has a
route to and the source address it would choose.

Addresses are in host order.
-/

namespace Coping

open CInt

/-- `IP_PMTUDISC_DO` and `IPV6_PMTUDISC_DO`. -/
def PMTUDISC_DO : Int := 2

/-- An option as it stands behind the switch of `main`. -/
inductive Arg where
  /-- `-i`, with the value of `(int)(optval * 1000)`. -/
  | interval (ms : Int)
  /-- `-f`. -/
  | flood
  /-- `-A`. -/
  | adaptive
  /-- `-b`. -/
  | broadcast
  /-- `-l`. -/
  | preload (n : Int)
  deriving DecidableEq

/-- The interval options before the first of them is read. -/
def mainDefaults (options : PingRts) : PingRts :=
  { options with
    interval := 1000
    preload := 1
    multicast := false
    broadcastPings := false
    optAdaptive := false
    optFlood := false
    optInterval := false }

def parseArg (rts : PingRts) : Arg → Option PingRts
  | .interval ms =>
      if ms < 0 ∨ ms > intMax then none
      else some { rts with interval := ms, optInterval := true }
  | .flood => some { rts with optFlood := true }
  | .adaptive => some { rts with optAdaptive := true }
  | .broadcast => some { rts with broadcastPings := true }
  | .preload n =>
      if n < 1 ∨ n > MAX_DUP_CHK then none
      else if rts.uid ≠ 0 ∧ n > 3 then none
      else some { rts with preload := n }

def options : Machine PingRts Arg where
  step := parseArg

structure Kernel where
  broadcast : UInt32 → Bool
  /-- `connect` finds a route. -/
  reachable : UInt32 → Bool
  /-- It returns 0, which for a link-local address it does without a look at the routes. -/
  reachable6 : BitVec 128 → Bool
  /-- What `getsockname` returns behind it. -/
  sourceFor : UInt32 → UInt32

/-- The destination and what else the run functions are given. -/
structure Destination where
  whereto : UInt32 := 0
  /-- The first hop, with several targets. -/
  route : Option UInt32 := none
  /-- `-T tsprespec`: the hops are to write times into the probes. -/
  prespec : Bool := false
  /-- The address of `-I`. -/
  source : Option UInt32 := none
  whereto6 : BitVec 128 := 0
  firsthop : Option (BitVec 128) := none
  source6 : Option (BitVec 128) := none
  pmtudisc : Int := -1

/-- Several targets are a source route, but for `-T tsprespec`. -/
def Destination.optSourceroute (d : Destination) : Bool := d.route.isSome && !d.prespec

/-- `IN_MULTICAST`. -/
def inMulticast (a : UInt32) : Bool := a &&& 0xf0000000 == 0xe0000000

/-- `IN6_IS_ADDR_MULTICAST`: the first byte is 0xff. -/
def in6IsAddrMulticast (a : BitVec 128) : Bool := a >>> 120 == 0xff

/-- The check for group addresses, the same in both families. -/
def checkGroup (rts : PingRts) (group : Bool) (pmtudisc : Int) : Option PingRts :=
  if group then
    if rts.uid ≠ 0 ∧ rts.interval < MIN_MULTICAST_USER_INTERVAL_MS then none
    else if rts.uid ≠ 0 ∧ pmtudisc ≥ 0 ∧ pmtudisc ≠ PMTUDISC_DO then none
    else some { rts with multicast := true }
  else some rts

/-- The source address of the probes, unless the run ends on the way to it. Without
`-b` the kernel refuses to connect to a broadcast address. -/
def probeSource (kernel : Kernel) (rts : PingRts) (d : Destination) : Option UInt32 :=
  match d.source with
  | some source => some source
  | none =>
    let dst := d.route.getD d.whereto
    if kernel.broadcast dst ∧ ¬rts.broadcastPings then none
    else if ¬kernel.reachable dst then none
    else some (kernel.sourceFor dst)

def ping4Run (kernel : Kernel) (rts : PingRts) (d : Destination) : Option PingRts :=
  (probeSource kernel rts d).bind fun source =>
    let whereto := if d.whereto = 0 then source else d.whereto
    checkGroup { rts with whereto := whereto } (rts.broadcastPings || inMulticast whereto)
      d.pmtudisc

def ping6Run (kernel : Kernel) (rts : PingRts) (d : Destination) : Option PingRts :=
  if d.source6 = none ∧ ¬kernel.reachable6 (d.firsthop.getD d.whereto6) then none
  else
    checkGroup { rts with whereto6 := d.whereto6 } (in6IsAddrMulticast d.whereto6) d.pmtudisc

def Family.run (family : Family) (kernel : Kernel) (rts : PingRts) (d : Destination) :
    Option PingRts :=
  match family with
  | .inet => ping4Run kernel rts d
  | .inet6 => ping6Run kernel rts d

/-- Protocol independent setup and parameter checks. -/
def setup (rts : PingRts) : Option PingRts :=
  let interval := if rts.optFlood ∧ ¬rts.optInterval then 0 else rts.interval
  if rts.uid ≠ 0 ∧ interval < MIN_USER_INTERVAL_MS then none
  else if interval ≥ intMax / rts.preload then none
  else some { rts with interval := interval }

/-- The check sets nothing but the flag. -/
theorem checkGroup_eq {rts rts' : PingRts} {group : Bool} {pmtudisc : Int}
    (h : checkGroup rts group pmtudisc = some rts') :
    rts' = { rts with multicast := group || rts.multicast } := by
  rw [checkGroup] at h
  cases group with
  | false =>
      cases h
      rfl
  | true =>
      rw [if_pos rfl] at h
      split at h
      · cases h
      split at h
      · cases h
      · cases h
        rfl

/-- A field that is neither the destination nor the flag. -/
theorem Family.run_field {α : Type} {family : Family} {kernel : Kernel} {rts rts' : PingRts}
    {d : Destination} (field : PingRts → α)
    (addressed : ∀ (rts : PingRts) whereto, field { rts with whereto := whereto } = field rts)
    (addressed6 : ∀ (rts : PingRts) whereto6,
      field { rts with whereto6 := whereto6 } = field rts)
    (flagged : ∀ (rts : PingRts) multicast, field { rts with multicast := multicast } = field rts)
    (h : family.run kernel rts d = some rts') : field rts' = field rts := by
  cases family with
  | inet =>
      obtain ⟨source, -, hcheck⟩ := Option.bind_eq_some_iff.mp h
      rw [checkGroup_eq hcheck]
      exact (flagged _ _).trans (addressed rts _)
  | inet6 =>
      rw [Family.run, ping6Run] at h
      split at h
      · cases h
      · rw [checkGroup_eq h]
        exact (flagged _ _).trans (addressed6 rts _)

/-- What `setup` lets pass: the interval, which a flood takes as zero, is within its limits. -/
theorem setup_cases {rts rts' : PingRts} (h : setup rts = some rts') :
    ∃ interval, (interval = 0 ∨ interval = rts.interval) ∧
      ¬(rts.uid ≠ 0 ∧ interval < MIN_USER_INTERVAL_MS) ∧ interval < intMax / rts.preload ∧
      rts' = { rts with interval := interval } := by
  by_cases hflood : rts.optFlood = true ∧ ¬rts.optInterval = true
  · rw [setup, if_pos hflood] at h
    split at h
    · cases h
    next huser =>
      split at h
      · cases h
      next hlimit =>
        cases h
        exact ⟨0, .inl rfl, huser, Int.not_le.mp hlimit, rfl⟩
  · rw [setup, if_neg hflood] at h
    split at h
    · cases h
    next huser =>
      split at h
      · cases h
      next hlimit =>
        cases h
        exact ⟨rts.interval, .inr rfl, huser, Int.not_le.mp hlimit, rfl⟩

/-- The state in which the main loop is entered. -/
def accepted (family : Family) (kernel : Kernel) (settings : PingRts) (args : List Arg)
    (d : Destination) : Option PingRts :=
  (options.final (mainDefaults settings.start) args).bind fun rts =>
    (family.run kernel rts d).bind setup

/-- A destination that the family knows as a multicast one. -/
def Family.isMulticast (family : Family) (rts : PingRts) : Bool :=
  match family with
  | .inet => inMulticast rts.whereto
  | .inet6 => in6IsAddrMulticast rts.whereto6

def Family.isBroadcast (family : Family) (kernel : Kernel) (rts : PingRts) : Bool :=
  match family with
  | .inet => kernel.broadcast rts.whereto
  | .inet6 => false

end Coping
