import Coping.Library.CBuffer
import Coping.Ping.Setup

/-!
# One address after the other

The loop of `main` over the results of `getaddrinfo`, with the part of `ping4_run` and
`ping6_run` that can send it on to the next result: both connect a probe socket, and
return -1 when the destination is unreachable and there is another result. What the
functions keep in `struct ping_rts` and in static variables from one call to the next
is passed on.

No source address is given with `-I`, so that it has to be found by probing. A socket
option that the kernel refuses ends the program and is left out.
-/

namespace Coping

def ENETUNREACH : Int := 101

def EHOSTUNREACH : Int := 113

/-- The error codes on which the next result is tried. -/
def isUnreachable (errno : Int) : Bool := errno = EHOSTUNREACH || errno = ENETUNREACH

/-- How a run function is left, or what it goes on with. -/
inductive RunResult (σ α : Type) where
  /-- It returns -1, and leaves this behind. -/
  | next (s : σ)
  | proceeds (a : α)
  | exits

/-! ## IPv6 -/

/-- The part of `struct sockaddr_in6` that names a destination. -/
structure SockaddrIn6 where
  sin6Addr : BitVec 128
  sin6ScopeId : UInt32 := 0
  deriving DecidableEq

/-- `IN6_IS_ADDR_LINKLOCAL`. -/
def in6IsAddrLinklocal (a : BitVec 128) : Bool := a >>> 118 == 0x3fa

/-- `IN6_IS_ADDR_MC_LINKLOCAL`. -/
def in6IsAddrMcLinklocal (a : BitVec 128) : Bool :=
  in6IsAddrMulticast a && (a >>> 112 &&& 0xf) == 0x2

/-- `AF_UNSPEC` and `AF_INET6`. -/
inductive SaFamily where
  | unspec
  | inet6
  deriving DecidableEq

/-- `rts->firsthop`, the family of which is set by itself, and the static `scope_id`. -/
structure Firsthop where
  firsthop : SockaddrIn6 := { sin6Addr := 0 }
  sin6Family : SaFamily := .unspec
  scopeId : UInt32 := 0

/-- With `-I` and an interface, link-local addresses are on that interface. -/
def onDevice (device : Option UInt32) (a : SockaddrIn6) : SockaddrIn6 :=
  match device with
  | none => a
  | some iface =>
      if in6IsAddrLinklocal a.sin6Addr ∨ in6IsAddrMcLinklocal a.sin6Addr then
        { a with sin6ScopeId := iface }
      else a

/-- The first hop is the destination, unless it is known already. -/
def fillFirsthop (s : Firsthop) (ai : SockaddrIn6) : Option Firsthop :=
  if s.firsthop.sin6Addr = 0 then
    -- Verify scope_id is the same as intermediate nodes.
    if ai.sin6ScopeId ≠ 0 ∧ s.scopeId ≠ 0 ∧ ai.sin6ScopeId ≠ s.scopeId then none
    else some { s with
      firsthop := ai
      scopeId := if s.scopeId = 0 then ai.sin6ScopeId else s.scopeId }
  else some s

/-- The family is set unless the first hop is a link-local address. -/
def setFamily (s : Firsthop) : Firsthop :=
  if ¬in6IsAddrLinklocal s.firsthop.sin6Addr ∧ ¬in6IsAddrMcLinklocal s.firsthop.sin6Addr then
    { s with sin6Family := .inet6 }
  else s

/-- One call of `ping6_run`: where the probe socket was connected to, and the rest. -/
structure Ping6Attempt where
  connected : Option SockaddrIn6
  result : RunResult Firsthop Unit

/-- `ping6_run` up to the probe. `connect` is the error of the call for an IPv6 address, or
0. -/
def ping6Probe (device : Option UInt32) (connect : SockaddrIn6 → Int) (s : Firsthop)
    (ai : SockaddrIn6) (aiNext : Bool) : Ping6Attempt :=
  match fillFirsthop s ai with
  | none => { connected := none, result := .exits }
  | some s =>
    let s := setFamily { s with firsthop := onDevice device s.firsthop }
    match s.sin6Family with
    -- With `AF_UNSPEC`, `connect` dissolves an association. There is none, and it returns 0.
    | .unspec => { connected := none, result := .proceeds () }
    | .inet6 =>
      { connected := some s.firsthop
        result :=
          if connect s.firsthop = 0 then .proceeds ()
          else if isUnreachable (connect s.firsthop) ∧ aiNext then .next s
          else .exits }

/-- What the loop of `main` has tried, and the result with which it proceeds. -/
structure Tried where
  attempts : List (SockaddrIn6 × Option SockaddrIn6) := []
  chosen : Option SockaddrIn6 := none

/-- The loop of `main`, over IPv6 results. -/
def main6 (device : Option UInt32) (connect : SockaddrIn6 → Int) :
    Firsthop → List SockaddrIn6 → Tried
  | _, [] => {}
  | s, ai :: rest =>
    let attempt := ping6Probe device connect s ai (!rest.isEmpty)
    match attempt.result with
    | .next s =>
        let tried := main6 device connect s rest
        { tried with attempts := (ai, attempt.connected) :: tried.attempts }
    | .proceeds _ => { attempts := [(ai, attempt.connected)], chosen := some ai }
    | .exits => { attempts := [(ai, attempt.connected)] }

/-! ## IPv4 -/

/-- `IPOPT_*`. -/
def IPOPT_EOL : UInt8 := 0

def IPOPT_NOOP : UInt8 := 1

def IPOPT_RR : UInt8 := 7

def IPOPT_TIMESTAMP : UInt8 := 68

def IPOPT_LSRR : UInt8 := 131

def IPOPT_SSRR : UInt8 := 137

def IPOPT_MINOFF : UInt8 := 4

/-- `-T tsonly`, `-T tsandaddr` and `-T tsprespec`. -/
inductive TsType where
  | tsonly
  | tsandaddr
  | prespec
  deriving DecidableEq

/-- The flag byte of the timestamp option. -/
def TsType.flag : TsType → UInt8
  | .tsonly => 0
  | .tsandaddr => 1
  | .prespec => 3

/-- The options that bear on the option block. -/
structure RouteOptions where
  optRroute : Bool := false
  /-- `-T`, which `main` does not accept together with `-R`. -/
  optTimestamp : Option TsType := none
  optSoDontroute : Bool := false
  exclusive : optRroute = true → optTimestamp = none := by decide

/-- The fields of `struct ping_rts` in which the hops are kept. -/
structure Routing where
  nroute : Nat := 0
  route : Vector UInt32 10 := Vector.replicate 10 0
  whereto : UInt32 := 0
  optSourceroute : Bool := false

/-- `route[0 .. nroute - 1]`. -/
def Routing.hops (s : Routing) : List UInt32 := s.route.toList.take s.nroute

/-- What ends the program in `ping4_run`, apart from a destination without a route. -/
inductive Ping4Stop where
  | usage
  /-- Something is written outside of an array. -/
  | outside
  deriving DecidableEq

/-- The checks on the number of targets. -/
def checkTargets (o : RouteOptions) (s : Routing) (argc : Nat) : Except Ping4Stop Routing :=
  if argc > 1 then
    if o.optRroute then .error .usage
    else
      match o.optTimestamp with
      | some type => if type ≠ .prespec ∨ argc > 5 then .error .usage else .ok s
      | none => if argc > 10 then .error .usage else .ok { s with optSourceroute := true }
  else .ok s

/-- The loop over the targets. An argument is the address that the target stands for;
the last one is the destination, the others are hops. -/
def fillRoute (s : Routing) : List UInt32 → Except Ping4Stop Routing
  | [] => .ok s
  | [whereto] => .ok { s with whereto := whereto }
  | hop :: argv =>
      if h : s.nroute < 10 then
        fillRoute
          { s with nroute := s.nroute + 1, route := s.route.set s.nroute hop, whereto := hop } argv
      else .error .outside

/-- Four bytes in network order. -/
def be32 (x : UInt32) : List UInt8 :=
  [UInt8.ofNat (x.toNat / 16777216), UInt8.ofNat (x.toNat / 65536), UInt8.ofNat (x.toNat / 256),
    UInt8.ofNat x.toNat]

/-- `rspace`. -/
abbrev Rspace := CBuffer 40

def writeRspace (b : Rspace) (offset : Nat) (bs : List UInt8) : Except Ping4Stop Rspace :=
  match b.write offset bs with
  | some b => .ok b
  | none => .error .outside

/-- Copy addresses into the block, `stride` bytes apart. -/
def writeRoute (stride : Nat) : Nat → List UInt32 → Rspace → Except Ping4Stop Rspace
  | _, [], b => .ok b
  | offset, a :: rest, b => do
      let b ← writeRspace b offset (be32 a)
      writeRoute stride (offset + stride) rest b

/-- A block given to `setsockopt(IP_OPTIONS)`, with the length given along. -/
structure OptionBlock where
  block : Rspace
  optlen : Nat

/-- The record route option. -/
def recordRoute : Except Ping4Stop OptionBlock := do
  let b ← writeRspace CBuffer.zero 0 [IPOPT_NOOP, IPOPT_RR, 39, IPOPT_MINOFF]
  return ⟨b, 40⟩

def timestampOption (s : Routing) (type : TsType) : Except Ping4Stop OptionBlock := do
  let length : Nat := match type with
    | .tsonly => 40
    | .tsandaddr => 36
    | .prespec => (4 + s.nroute * 8) % 256
  let b ← writeRspace CBuffer.zero 0 [IPOPT_TIMESTAMP, UInt8.ofNat length, 5, type.flag]
  let b ← if type = .prespec then writeRoute 8 4 s.hops b else .ok b
  return ⟨b, length⟩

def sourceRoute (o : RouteOptions) (s : Routing) : Except Ping4Stop OptionBlock := do
  let type := if o.optSoDontroute then IPOPT_SSRR else IPOPT_LSRR
  let b ← writeRspace CBuffer.zero 0
    [IPOPT_NOOP, type, UInt8.ofNat (3 + s.nroute * 4), IPOPT_MINOFF]
  let b ← writeRoute 4 4 s.hops b
  return ⟨b, 4 + s.nroute * 4⟩

def recordRouteBlocks (o : RouteOptions) : Except Ping4Stop (List OptionBlock) :=
  if o.optRroute then recordRoute.map ([·]) else .ok []

def timestampBlocks (o : RouteOptions) (s : Routing) : Except Ping4Stop (List OptionBlock) :=
  match o.optTimestamp with
  | some type => (timestampOption s type).map ([·])
  | none => .ok []

def sourceRouteBlocks (o : RouteOptions) (s : Routing) : Except Ping4Stop (List OptionBlock) :=
  if s.optSourceroute then (sourceRoute o s).map ([·]) else .ok []

/-- The option blocks, in the order in which they are set. -/
def optionBlocks (o : RouteOptions) (s : Routing) : Except Ping4Stop (List OptionBlock) := do
  let recorded ← recordRouteBlocks o
  let stamped ← timestampBlocks o s
  let routed ← sourceRouteBlocks o s
  return recorded ++ stamped ++ routed

/-- `ping4_run` up to the probe, which is connected to the first hop if there is one.
Without a broadcast destination `connect` is called once. -/
def ping4Probe (o : RouteOptions) (hops : List UInt32) (connect : UInt32 → Int) (s : Routing)
    (whereto : UInt32) (aiNext : Bool) : Except Ping4Stop (RunResult Routing Routing) := do
  let argv := hops ++ [whereto]
  let s ← checkTargets o s argv.length
  let s ← fillRoute s argv
  let errno := connect (s.hops.headD s.whereto)
  if errno = 0 then return .proceeds s
  else if isUnreachable errno ∧ aiNext then return .next s
  else return .exits

/-- The loop of `main`, over IPv4 results, up to the option blocks. -/
def main4 (o : RouteOptions) (hops : List UInt32) (connect : UInt32 → Int) :
    Routing → List UInt32 → Except Ping4Stop (Option (Routing × List OptionBlock))
  | _, [] => return none
  | s, whereto :: rest => do
      match ← ping4Probe o hops connect s whereto (!rest.isEmpty) with
      | .next s => main4 o hops connect s rest
      | .proceeds s =>
          let blocks ← optionBlocks o s
          return some (s, blocks)
      | .exits => return none

end Coping
