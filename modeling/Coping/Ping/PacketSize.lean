import Coping.Ping.Addresses

/-!
# The size of the packets

What `main` and the run functions do with `-s`: the options that bear on the size, the
sockets, the limit that `main` checks, and the loop over the results of `getaddrinfo`
until a run function proceeds. A run that exits with an error, or that writes outside of
an array, has no result. The kernel enters as the sockets it grants and as the errors of
the `connect` calls.

The limit is set before the results are known. What `get_ipv4_optlen` says then is not
yet what it says in `ping4_run`, where the hops of the command line are counted.
-/

namespace Coping.PacketSize

open CInt

def DEFDATALEN : Nat := 56

/-- The size of an IPv4 packet less its headers. -/
def ICMP_MAX_DATALEN : Nat := MAXPACKET - 20 - 8

/-- The packet buffer less the header. -/
def ICMPV6_MAX_DATALEN : Nat := MAXPACKET - 8

/-! ## Options -/

/-- An option that bears on the size, as it stands behind the switch of `main`. -/
inductive SizeArg where
  /-- `-4`. -/
  | four
  /-- `-6`. -/
  | six
  /-- `-R`. -/
  | rroute
  /-- `-T`. -/
  | timestamp (type : TsType)
  /-- `-s`, with the number that `strtol` reads. -/
  | size (n : Int)

structure SizeOptions where
  /-- `hints.ai_family`, where nothing is `AF_UNSPEC`. -/
  aiFamily : Option Family := none
  route : RouteOptions := {}
  datalen : Nat := DEFDATALEN

def parseSizeArg (s : SizeOptions) : SizeArg → Option SizeOptions
  | .four =>
      if s.aiFamily = some .inet6 then none else some { s with aiFamily := some .inet }
  | .six =>
      if s.aiFamily = some .inet then none else some { s with aiFamily := some .inet6 }
  | .rroute =>
      if h : s.route.optTimestamp = none then
        some { s with route := { s.route with optRroute := true, exclusive := fun _ => h } }
      else none
  | .timestamp type =>
      if h : s.route.optRroute = true then none
      else
        some { s with
          route := { s.route with
            optTimestamp := some type
            exclusive := fun rroute => absurd rroute h } }
  | .size n =>
      if n < 0 ∨ n > intMax then none else some { s with datalen := n.toNat }

def sizeOptions : Machine SizeOptions SizeArg where
  step := parseSizeArg

/-- In `ping4_run` this depends on the targets, in `main` it does not yet. -/
def getIpv4Optlen (o : RouteOptions) (s : Routing) : Nat :=
  if o.optRroute ∨ o.optTimestamp ≠ none ∨ s.optSourceroute then 40 else 0

/-! ## Sockets -/

/-- Which of `sock4` and `sock6` have a file descriptor. -/
structure Sockets where
  sock4 : Bool
  sock6 : Bool

/-- A socket that the kernel refuses ends the program if it is a requisite. -/
def createSocket (granted requisite : Bool) : Option Bool :=
  if granted then some true else if requisite then none else some false

def createSockets (kernel : Sockets) (family : Option Family) : Option Sockets := do
  let sock4 ←
    if family ≠ some .inet6 then createSocket kernel.sock4 (family = some .inet)
    else some false
  let sock6 ←
    if family ≠ some .inet then createSocket kernel.sock6 (!sock4) else some false
  return ⟨sock4, sock6⟩

/-- Limit the address family on single-protocol systems. -/
def limitFamily (socks : Sockets) : Option Family → Option Family
  | some family => some family
  | none =>
      if socks.sock4 = false then some .inet6
      else if socks.sock6 = false then some .inet
      else none

/-! ## The check -/

/-- A command line behind its options, and what the names on it stand for. -/
structure Targets where
  hops : List UInt32 := []
  /-- `inet_pton(AF_INET, target, buf)`. -/
  inet : Bool := false
  /-- `inet_pton(AF_INET6, target, buf)`. -/
  inet6 : Bool := false

def maxS (family : Option Family) (t : Targets) (optlen : Nat) : Nat :=
  -- Detect based on -4 / -6.
  let max_s := match family with
    | none => max ICMP_MAX_DATALEN ICMPV6_MAX_DATALEN
    | some .inet => ICMP_MAX_DATALEN - optlen
    | some .inet6 => ICMPV6_MAX_DATALEN
  -- Force the limit on addresses.
  if t.inet then ICMP_MAX_DATALEN - optlen
  else if t.inet6 then ICMPV6_MAX_DATALEN
  else max_s

/-! ## The results of `getaddrinfo` -/

inductive AddrInfo where
  | inet (whereto : UInt32)
  | inet6 (ai : SockaddrIn6)

def AddrInfo.aiFamily : AddrInfo → Family
  | .inet _ => .inet
  | .inet6 _ => .inet6

/-- What attempts depend on besides their address. -/
structure Network where
  device : Option UInt32 := none
  connect4 : UInt32 → Int := fun _ => 0
  connect : SockaddrIn6 → Int := fun _ => 0

/-- What the run functions leave to the next call. -/
structure Kept where
  routing : Routing := {}
  firsthop : Firsthop := {}

/-- One call of a run function. It proceeds with a value of `rts->optlen`. -/
def tryResult (net : Network) (o : RouteOptions) (hops : List UInt32) (s : Kept)
    (aiNext : Bool) : AddrInfo → RunResult Kept Nat
  | .inet whereto =>
    match ping4Probe o hops net.connect4 s.routing whereto aiNext with
    | .ok (.next routing) => .next { s with routing := routing }
    | .ok (.proceeds routing) =>
      match optionBlocks o routing with
      | .ok _ => .proceeds (getIpv4Optlen o routing)
      | .error _ => .exits
    | .ok .exits | .error _ => .exits
  | .inet6 ai =>
    if hops ≠ [] then .exits
    else
      match (ping6Probe net.device net.connect s.firsthop ai aiNext).result with
      | .next firsthop => .next { s with firsthop := firsthop }
      | .proceeds _ => .proceeds 0
      | .exits => .exits

/-- The loop of `main`. Results that are not of the wanted family are passed over. -/
def tryResults (net : Network) (o : RouteOptions) (hops : List UInt32)
    (targetAiFamily : Option Family) : Kept → List AddrInfo → Option (Family × Nat)
  | _, [] => none
  | s, ai :: rest =>
    if targetAiFamily ≠ none ∧ targetAiFamily ≠ some ai.aiFamily then
      tryResults net o hops targetAiFamily s rest
    else
      match tryResult net o hops s (!rest.isEmpty) ai with
      | .next s => tryResults net o hops targetAiFamily s rest
      | .proceeds optlen => some (ai.aiFamily, optlen)
      | .exits => none

/-- What a run is left with: the family it pings over and the sizes. -/
structure Sized where
  family : Family
  optlen : Nat
  datalen : Nat
  deriving DecidableEq

/-- `main` behind its options. -/
def checkSize (kernel : Sockets) (net : Network) (s : SizeOptions) (t : Targets)
    (results : List AddrInfo) : Option Sized := do
  let socks ← createSockets kernel s.aiFamily
  let family := limitFamily socks s.aiFamily
  if s.datalen > maxS family t (getIpv4Optlen s.route {}) then none
  else
    (tryResults net s.route t.hops family {} results).map fun run =>
      ⟨run.1, run.2, s.datalen⟩

/-- The name of the program ends in a 4 or a 6, or in neither. -/
def main (kernel : Sockets) (net : Network) (invoked : Option Family) (args : List SizeArg)
    (t : Targets) (results : List AddrInfo) : Option Sized :=
  (sizeOptions.final { aiFamily := invoked } args).bind fun s =>
    checkSize kernel net s t results

end Coping.PacketSize
