import Coping.Library.Machine
import Coping.Ping.ErrorQueue

/-!
# tracepath

`main`, `probe_ttl` and `recverr` of `tracepath.c`. The three nested loops are a machine
that waits where the program waits: for the outcome of `sendto`, for a message of the
error queue, and for a reply. What is printed is left out, but for what is attributed to a
probe.
-/

namespace Coping.Tracepath

open CInt

def MAX_PROBES : Nat := 10

def MAX_HOPS_LIMIT : Int := 255

abbrev HIS_ARRAY_SIZE : Nat := 64

instance : NeZero HIS_ARRAY_SIZE := ⟨Nat.succ_ne_zero 63⟩

def DEFAULT_OVERHEAD_IPV4 : Int := 28

def DEFAULT_OVERHEAD_IPV6 : Int := 48

def DEFAULT_MTU_IPV4 : Int := 65535

def DEFAULT_MTU_IPV6 : Int := 128000

def ETIMEDOUT : Int := 110

def ECONNREFUSED : Int := 111

def EHOSTUNREACH : Int := 113

/-- `ICMP_TIME_EXCEEDED` and `ICMPV6_TIME_EXCEED`. -/
def ICMP_TIME_EXCEEDED : UInt8 := 11

def ICMPV6_TIME_EXCEED : UInt8 := 3

/-- `struct hhistory`. -/
structure HHistory where
  hops : Int := 0
  sendtime : Timespec := {}
  deriving DecidableEq

/-- `struct probehdr`. -/
structure ProbeHdr where
  ttl : UInt32
  ts : Timespec

/-- `struct run_state`. -/
structure RunState where
  /-- `ai_family` of the address. -/
  family : Family := .inet
  his : Vector HHistory HIS_ARRAY_SIZE := Vector.replicate HIS_ARRAY_SIZE {}
  hisptr : Fin HIS_ARRAY_SIZE := 0
  basePort : UInt16
  ttl : UInt8 := 1
  maxHops : Int
  overhead : Int
  mtu : Int
  /-- The number of bytes that were allocated. -/
  pktbuf : Int
  hopsTo : Int := -1
  hopsFrom : Int := -1
  mapped : Bool := false

/-- A message of the error queue. -/
structure Message where
  /-- The port of the offending packet. -/
  port : UInt16
  /-- The header in its payload, if all of it came back. -/
  header : Option ProbeHdr := none
  rethops : Int := -1
  ee : Option SockExtendedErr

/-- What `recverr` finds out about the probe that a message is about. -/
structure Attribution where
  sndhops : Int := -1
  retts : Option Timespec := none
  brokenRouter : Bool := false
  deriving DecidableEq

/-- `slot` of `recverr`. -/
def slotOf (ctl : RunState) (m : Message) : Int := (m.port.toNat : Int) - ctl.basePort.toNat

/-- The slot of the history that is looked at, if it holds a probe. -/
def foundSlot (ctl : RunState) (m : Message) : Option (Fin HIS_ARRAY_SIZE) :=
  let slot := slotOf ctl m
  if h : 0 ≤ slot ∧ slot < (HIS_ARRAY_SIZE : Int) - 1 then
    let slot : Fin HIS_ARRAY_SIZE := ⟨slot.toNat, by
      have hupper := h.2
      omega⟩
    if ctl.his[slot].hops ≠ 0 then some slot else none
  else none

/-- The history without the probe that was found. -/
def clearSlot (ctl : RunState) (slot : Option (Fin HIS_ARRAY_SIZE)) : RunState :=
  match slot with
  | none => ctl
  | some slot => { ctl with his := ctl.his.set slot { ctl.his[slot] with hops := 0 } }

/-- The header of the probe goes before the history. -/
def attribution (ctl : RunState) (m : Message) : Attribution :=
  let found : Attribution :=
    match foundSlot ctl m with
    | none => {}
    | some slot => { sndhops := ctl.his[slot].hops, retts := some ctl.his[slot].sendtime }
  match m.header with
  | none => found
  | some header =>
      if header.ttl = 0 ∨ header.ts = {} then { found with brokenRouter := true }
      else { found with sndhops := toInt32 header.ttl.toNat, retts := some header.ts }

/-- The hops that the answer has taken. -/
def returnHops (rethops : Int) : Int :=
  if rethops ≤ 64 then 65 - rethops else if rethops ≤ 128 then 129 - rethops else 256 - rethops

/-- The time to live was used up. -/
def expired (e : SockExtendedErr) : Bool :=
  (e.eeOrigin = SO_EE_ORIGIN_ICMP && e.eeType = ICMP_TIME_EXCEEDED && e.eeCode = 0) ||
    (e.eeOrigin = SO_EE_ORIGIN_ICMP6 && e.eeType = ICMPV6_TIME_EXCEED && e.eeCode = 0)

/-- What a message leads to: another one, with the progress so far, or the end of the trace. -/
inductive Verdict where
  | restart (progress : Int)
  | return
  deriving DecidableEq

/-- `recverr`, behind `recvmsg`. -/
def recverr (ctl : RunState) (m : Message) : RunState × Verdict :=
  let sndhops := (attribution ctl m).sndhops
  let ctl := clearSlot ctl (foundSlot ctl m)
  match m.ee with
  | none => (ctl, .return)
  | some e =>
      if e.eeErrno = ETIMEDOUT then (ctl, .restart ctl.mtu)
      else if e.eeErrno = EMSGSIZE then
        ({ ctl with mtu := toInt32 e.eeInfo }, .restart (toInt32 e.eeInfo))
      else if e.eeErrno = ECONNREFUSED then
        ({ ctl with
            hopsTo := if sndhops < 0 then ctl.ttl.toNat else sndhops
            hopsFrom := returnHops m.rethops }, .return)
      else if e.eeErrno = EHOSTUNREACH ∧ expired e then (ctl, .restart ctl.mtu)
      -- Other errors differ in what is printed only.
      else (ctl, .return)

/-- A message changes the history, the MTU and the hops of the answer. -/
theorem recverr_ctl (ctl : RunState) (m : Message) :
    ∃ mtu hopsTo hopsFrom, (recverr ctl m).1 =
      { clearSlot ctl (foundSlot ctl m) with
        mtu := mtu, hopsTo := hopsTo, hopsFrom := hopsFrom } := by
  cases hee : m.ee with
  | none =>
      simp only [recverr, hee]
      exact ⟨_, _, _, rfl⟩
  | some e =>
      simp only [recverr, hee]
      split
      · exact ⟨_, _, _, rfl⟩
      split
      · exact ⟨_, _, _, rfl⟩
      split
      · exact ⟨_, _, _, rfl⟩
      split
      · exact ⟨_, _, _, rfl⟩
      · exact ⟨_, _, _, rfl⟩

/-! ## The loops -/

/-- Who has called `recverr`. -/
inductive Caller where
  /-- `probe_ttl`, because its `i`-th `sendto` has failed. -/
  | send (i : Nat)
  /-- `probe_ttl`, because there was no reply. -/
  | wait
  deriving DecidableEq

inductive Phase where
  /-- Before the `i`-th `sendto` of `probe_ttl`. -/
  | sending (i : Nat)
  /-- In `recverr`. -/
  | draining (caller : Caller) (progress : Int)
  /-- In `data_wait`, with a `recv` behind it. -/
  | waiting
  | tooManyHops
  | done
  /-- The program has ended with an error. -/
  | failed
  deriving DecidableEq

structure State where
  ctl : RunState
  /-- `i` and `old_mtu` of `main`. -/
  pass : Nat := 0
  oldMtu : Int
  phase : Phase

/-- A call of `probe_ttl`, up to its first `sendto`. The buffer is cleared. -/
def probeStart (ctl : RunState) (pass : Nat) : State :=
  { ctl := ctl, pass := pass, oldMtu := ctl.mtu, phase := .sending 0 }

/-- What `setsockopt` takes for `IPV6_UNICAST_HOPS`. -/
def takesUnicastHops (on : Int) : Bool := -1 ≤ on ∧ on ≤ 255

/-- What it takes for `IP_TTL`: zero is refused. -/
def takesTtl (on : Int) : Bool := on = -1 ∨ 1 ≤ on ∧ on ≤ 255

/-- Whether the time to live can be set. -/
def setHops (ctl : RunState) : Bool :=
  match ctl.family with
  | .inet6 => takesUnicastHops ctl.ttl.toNat && (!ctl.mapped || takesTtl ctl.ttl.toNat)
  | .inet => takesTtl ctl.ttl.toNat

/-- The head of the loop over `ctl.ttl`: its test, and the `setsockopt`. -/
def hopStart (ctl : RunState) : State :=
  if (ctl.ttl.toNat : Int) ≤ ctl.maxHops then
    if setHops ctl then probeStart ctl 0
    else { ctl := ctl, oldMtu := ctl.mtu, phase := .failed }
  else { ctl := ctl, oldMtu := ctl.mtu, phase := .tooManyHops }

@[simp] theorem hopStart_ctl (ctl : RunState) : (hopStart ctl).ctl = ctl := by
  rw [hopStart]
  split
  · split <;> rfl
  · rfl

/-- `probe_ttl` has returned to `main`. -/
def probeReturn (s : State) (res : Int) : State :=
  if s.ctl.mtu ≠ s.oldMtu then probeStart s.ctl 0
  else if res = 0 then { s with phase := .done }
  else if res > 0 ∨ s.pass + 1 ≥ 3 then hopStart { s.ctl with ttl := s.ctl.ttl + 1 }
  else probeStart s.ctl (s.pass + 1)

/-- `recverr` has returned to `probe_ttl`. -/
def recverrReturn (s : State) (caller : Caller) (res : Int) : State :=
  match caller with
  | .wait => probeReturn s res
  | .send i =>
      let ctl := { s.ctl with
        his := s.ctl.his.set s.ctl.hisptr { s.ctl.his[s.ctl.hisptr] with hops := 0 } }
      if res = 0 then probeReturn { s with ctl := ctl } 0
      else if res > 0 then { s with ctl := ctl, phase := .sending 0 }
      else if i + 1 < MAX_PROBES then { s with ctl := ctl, phase := .sending (i + 1) }
      else probeReturn { s with ctl := { ctl with hisptr := ctl.hisptr + 1 } } 0

/-- A probe as it is noted in the history. -/
def noteProbe (ctl : RunState) (clock : Timespec) : RunState :=
  { ctl with his := ctl.his.set ctl.hisptr { hops := ctl.ttl.toNat, sendtime := clock } }

inductive Event where
  /-- A `sendto`, and whether it succeeds. -/
  | send (clock : Timespec) (success : Bool)
  | message (m : Message)
  /-- There is no message, or another failure. -/
  | queueFailed (again : Bool)
  /-- What `recv` yields. -/
  | reply (received : Bool)

def trace : Machine State Event where
  step s e :=
    match s.phase, e with
    | .sending i, .send clock success =>
        let ctl := noteProbe s.ctl clock
        if success then
          some { s with ctl := { ctl with hisptr := ctl.hisptr + 1 }, phase := .waiting }
        else some { s with ctl := ctl, phase := .draining (.send i) (-1) }
    | .draining caller _, .message m =>
        match recverr s.ctl m with
        | (ctl, .restart progress) =>
            some { s with ctl := ctl, phase := .draining caller progress }
        | (ctl, .return) => some (recverrReturn { s with ctl := ctl } caller 0)
    | .draining caller progress, .queueFailed again =>
        some (if again then recverrReturn s caller progress else s)
    | .waiting, .reply received =>
        some (if received then probeReturn s 0 else { s with phase := .draining .wait (-1) })
    | _, _ => none

/-! ## The start -/

/-- The size of a packet, and what of it is not data. A packet without data is refused. -/
def settle (overhead default mtu : Int) : Option (Int × Int) :=
  let mtu := if mtu = 0 then default else mtu
  if mtu ≤ overhead then none else some (overhead, mtu)

/-- The `switch` of `main`. -/
def packetSize (family : Family) (mapped : Bool) (mtu : Int) : Option (Int × Int) :=
  match family with
  | .inet => settle DEFAULT_OVERHEAD_IPV4 DEFAULT_MTU_IPV4 mtu
  | .inet6 => do
      let (overhead, mtu) ← settle DEFAULT_OVERHEAD_IPV6 DEFAULT_MTU_IPV6 mtu
      if mapped then settle DEFAULT_OVERHEAD_IPV4 DEFAULT_MTU_IPV4 mtu else some (overhead, mtu)

/-- `strtol_or_err`. -/
def strtolOrErr (num min max : Int) : Option Int := if min ≤ num ∧ num ≤ max then some num else none

/-- `main`, from the options on. `length` is the argument of `-l`, or zero, and `mapped` says of an
IPv6 address whether it stands for one of IPv4. -/
def start (family : Family) (mapped : Bool) (length hops : Int) (basePort : UInt16) :
    Option State := do
  let mtu ← strtolOrErr length 0 intMax
  let maxHops ← strtolOrErr hops 0 MAX_HOPS_LIMIT
  let (overhead, mtu) ← packetSize family mapped mtu
  some (hopStart
    { family := family
      basePort := basePort
      maxHops := maxHops
      overhead := overhead
      mtu := mtu
      pktbuf := mtu
      mapped := mapped })

end Coping.Tracepath
