import Coping.Library.OnesComplement
import Coping.Ping.Basic

/-!
# Building and sending a probe

`ping4_send_probe` of `ping.c` and `ping6_send_probe` of `ping6_common.c`, with
`in_cksum`, `build_echo` and `build_niquery`. A call clears the mark of the next
sequence number, builds the packet in `outpack` and hands its first bytes to the
kernel; what the kernel answers is not known here. `now` is the clock reading of
the one `gettimeofday` on the way.

The machine is little-endian. The `int` accumulator of `in_cksum` is a natural
number: `OnesComplement.wordSum_le` bounds it below `2 ^ 31` for every packet.
-/

namespace Coping

open OnesComplement

def ICMP_ECHO : UInt8 := 8

def ICMP6_ECHO_REQUEST : UInt8 := 128

def IPUTILS_NI_ICMP6_QUERY : UInt8 := 139

/-- A 16-bit word in memory. -/
def le16 (x : UInt16) : List UInt8 := [x.toUInt8, (x >>> 8).toUInt8]

/-- A 16-bit word in memory behind `htons`. -/
def be16 (x : UInt16) : List UInt8 := [(x >>> 8).toUInt8, x.toUInt8]

/-- The eight bytes of `struct icmphdr` and `struct icmp6_hdr` for an echo. -/
def echoHeader (type : UInt8) (checksum ident seq : UInt16) : List UInt8 :=
  [type, 0] ++ le16 checksum ++ le16 ident ++ be16 seq

def inCksum (addr : List UInt8) (len : Nat) (csum : UInt16) : UInt16 :=
  ~~~UInt16.ofNat (fold (csum.toNat + wordSum (addr.take len)))

/-- The packet that `ping4_send_probe` builds. -/
def echo4 (rts : PingRts) (now : Timeval) : Outpack :=
  let cc := rts.datalen + 8
  let icp := rts.outpack.write 0
    (echoHeader ICMP_ECHO 0 (UInt16.ofInt rts.ident) (low16 (rts.ntransmitted + 1)))
  let icp :=
    if rts.timing then
      if rts.optLatency then icp.write 8 now.bytes else icp.write 8 (List.replicate 16 0)
    else icp
  let checksum := inCksum icp.bytes cc 0
  let icp := icp.write 2 (le16 checksum)
  if rts.timing ∧ ¬rts.optLatency then
    (icp.write 8 now.bytes).write 2 (le16 (inCksum now.bytes 16 (~~~checksum)))
  else icp

/-- The state after the call and the bytes passed to `sendto`. -/
def ping4SendProbe (rts : PingRts) (now : Timeval) : PingRts × List UInt8 :=
  let packet := echo4 rts now
  ({ rcvdClear rts (low16 (rts.ntransmitted + 1)) with outpack := packet },
    packet.bytes.take (rts.datalen + 8))

def buildEcho (rts : PingRts) (now : Timeval) : Outpack × Nat :=
  let icmph := rts.outpack.write 0
    (echoHeader ICMP6_ECHO_REQUEST 0 (UInt16.ofInt rts.ident) (low16 (rts.ntransmitted + 1)))
  (if rts.timing then icmph.write 8 now.bytes else icmph, rts.datalen + 8)

def niqueryIsEnabled (ni : PingNi) : Bool := ni.query ≥ 0

def niqueryFillNonce (ni : PingNi) (seq : UInt16) : List UInt8 :=
  be16 seq ++ (ni.digest seq).toList

theorem length_niqueryFillNonce (ni : PingNi) (seq : UInt16) :
    (niqueryFillNonce ni seq).length = 8 := by
  rw [niqueryFillNonce, List.length_append, Vector.length_toList]
  rfl

def buildNiquery (rts : PingRts) : Outpack × Nat :=
  let header := [IPUTILS_NI_ICMP6_QUERY, UInt8.ofInt rts.ni.subjectType] ++ le16 0 ++
    be16 (UInt16.ofInt rts.ni.query) ++ le16 rts.ni.flag
  (rts.outpack.write 0 (header ++ niqueryFillNonce rts.ni (low16 (rts.ntransmitted + 1)) ++
    rts.ni.subject), 16 + rts.ni.subject.length)

def ping6SendProbe (rts : PingRts) (now : Timeval) : PingRts × List UInt8 :=
  let built := if niqueryIsEnabled rts.ni then buildNiquery rts else buildEcho rts now
  ({ rcvdClear rts (low16 (rts.ntransmitted + 1)) with
      outpack := built.1
      datalen := if niqueryIsEnabled rts.ni then 0 else rts.datalen
      confirm := 0 },
    built.1.bytes.take built.2)

/-- The address family chosen for the destination. -/
inductive Family where
  | inet
  | inet6
  deriving DecidableEq

/-- `send_probe` of the family's `ping_func_set_st`. -/
def Family.sendProbe (family : Family) (rts : PingRts) (now : Timeval) : PingRts × List UInt8 :=
  match family with
  | .inet => ping4SendProbe rts now
  | .inet6 => ping6SendProbe rts now

theorem ping4SendProbe_length (rts : PingRts) (now : Timeval)
    (small : rts.datalen + 8 ≤ MAXPACKET) :
    (ping4SendProbe rts now).2.length = rts.datalen + 8 := by
  have hsize := (echo4 rts now).size
  change ((echo4 rts now).bytes.take (rts.datalen + 8)).length = _
  rw [List.length_take]
  omega

/-! ## What a call changes -/

theorem Family.sendProbe_field {α : Type} (field : PingRts → α)
    (cleared : ∀ rts seq, field (rcvdClear rts seq) = field rts)
    (sent : ∀ (rts : PingRts) packet, field { rts with outpack := packet } = field rts)
    (sent6 : ∀ (rts : PingRts) packet datalen,
      field { rts with outpack := packet, datalen := datalen, confirm := 0 } = field rts)
    (family : Family) (rts : PingRts) (now : Timeval) :
    field (family.sendProbe rts now).1 = field rts := by
  cases family with
  | inet => exact (sent _ _).trans (cleared rts _)
  | inet6 => exact (sent6 _ _ _).trans (cleared rts _)

section Frame

variable (family : Family) (rts : PingRts) (now : Timeval)

@[simp] theorem Family.sendProbe_ntransmitted :
    (family.sendProbe rts now).1.ntransmitted = rts.ntransmitted :=
  family.sendProbe_field (·.ntransmitted) (fun _ _ => rfl) (fun _ _ => rfl) (fun _ _ _ => rfl) rts
    now

@[simp] theorem Family.sendProbe_nreceived :
    (family.sendProbe rts now).1.nreceived = rts.nreceived :=
  family.sendProbe_field (·.nreceived) (fun _ _ => rfl) (fun _ _ => rfl) (fun _ _ _ => rfl) rts now

@[simp] theorem Family.sendProbe_nrepeats :
    (family.sendProbe rts now).1.nrepeats = rts.nrepeats :=
  family.sendProbe_field (·.nrepeats) (fun _ _ => rfl) (fun _ _ => rfl) (fun _ _ _ => rfl) rts now

@[simp] theorem Family.sendProbe_nchecksum :
    (family.sendProbe rts now).1.nchecksum = rts.nchecksum :=
  family.sendProbe_field (·.nchecksum) (fun _ _ => rfl) (fun _ _ => rfl) (fun _ _ _ => rfl) rts now

@[simp] theorem Family.marked_sendProbe (seq : UInt16) :
    marked (family.sendProbe rts now).1 seq =
      (!decide (seq = low16 (rts.ntransmitted + 1)) && marked rts seq) := by
  rw [← marked_rcvdClear]
  cases family <;> rfl

end Frame

end Coping
