import Coping.Arping.Probe

/-!
# Replies to arping

`recv_pack` of `arping.c`. The header is read before the length of the packet is looked at:
the buffer holds what has been received and, behind that, what was there before.
-/

namespace Coping.Arping

open CInt CFormat

/-- What `recvfrom` yields: the buffer, the length of the packet, and `FROM`. -/
structure Arrival where
  buf : Buffer
  len : Nat
  FROM : SockaddrLl

/-- What `recv_pack` returns. -/
inductive Returned where
  | ignored
  | counted
  | finalPacks
  deriving DecidableEq

section Fields

variable (p : Arrival)

def arHrd : UInt16 := ByteOrder.word16 (p.buf 0) (p.buf 1)

def arPro : UInt16 := ByteOrder.word16 (p.buf 2) (p.buf 3)

def arHln : UInt8 := p.buf 4

def arPln : UInt8 := p.buf 5

def arOp : UInt16 := ByteOrder.word16 (p.buf 6) (p.buf 7)

def inAddrAt (offset : Nat) : InAddr :=
  ⟨p.buf offset, p.buf (offset + 1), p.buf (offset + 2), p.buf (offset + 3)⟩

/-- The addresses behind the header, where `ar_hln` tells them to be. -/
def srcHw : List UInt8 := memory p.buf 8 (arHln p).toNat

def srcIp : InAddr := inAddrAt p (8 + (arHln p).toNat)

def dstHw : List UInt8 := memory p.buf (8 + (arHln p).toNat + 4) (arHln p).toNat

def dstIp : InAddr := inAddrAt p (8 + (arHln p).toNat + 4 + (arHln p).toNat)

end Fields

/-! ## The filters -/

/-- The types of packets that are not wild. -/
def pkttypeOk (p : Arrival) : Bool :=
  p.FROM.pkttype = PACKET_HOST || p.FROM.pkttype = PACKET_BROADCAST ||
    p.FROM.pkttype = PACKET_MULTICAST

/-- Only these types are recognised. -/
def opOk (p : Arrival) : Bool := arOp p = ARPOP_REQUEST || arOp p = ARPOP_REPLY

/-- ARPHRD check and FDDI hack. -/
def hrdOk (p : Arrival) : Bool :=
  arHrd p = p.FROM.hatype || (p.FROM.hatype = ARPHRD_FDDI && arHrd p = ARPHRD_ETHER)

/-- Protocol must be IP. -/
def proOk (p : Arrival) : Bool :=
  if arHrd p = ARPHRD_AX25 ∨ arHrd p = ARPHRD_NETROM then arPro p = AX25_P_IP
  else arPro p = ETH_P_IP

def lengthsOk (ctl : RunState) (p : Arrival) : Bool :=
  arPln p = 4 && arHln p = ctl.me.halen && 8 + 2 * (4 + (arHln p).toNat) ≤ p.len

/-- An answer to us, or in DAD mode a packet of another host that has the address. -/
def addressesOk (ctl : RunState) (p : Arrival) : Bool :=
  if ctl.dad then
    srcIp p = ctl.gdst && memory p.buf 8 ctl.me.halen.toNat ≠ ctl.me.hardware &&
      (ctl.gsrc = {} || ctl.gsrc = dstIp p)
  else
    srcIp p = ctl.gdst && ctl.gsrc = dstIp p &&
      dstHw p = memory ctl.me.addr 0 (arHln p).toNat

/-- The packet passes all of the filters. -/
def passes (ctl : RunState) (p : Arrival) : Bool :=
  pkttypeOk p && opOk p && hrdOk p && proOk p && lengthsOk ctl p && addressesOk ctl p

/-! ## The line -/

/-- `inet_ntoa`. -/
def inetNtoa (a : InAddr) : List UInt8 :=
  decimal a.b0.toNat ++ ascii "." ++ decimal a.b1.toNat ++ ascii "." ++ decimal a.b2.toNat ++
    ascii "." ++ decimal a.b3.toNat

/-- A digit of `%X`. -/
def hexDigit (n : Nat) : UInt8 := if n < 10 then UInt8.ofNat (0x30 + n) else UInt8.ofNat (0x37 + n)

/-- `print_hex`. -/
def printHex (p : List UInt8) : List UInt8 :=
  (p.map fun b => [hexDigit (b.toNat / 16), hexDigit (b.toNat % 16)]).intersperse (ascii ":")
    |>.flatten

/-- `usecs` and `msecs` for the time since the last probe, in the arithmetic of `long`. -/
def elapsedParts (ts last : Timespec) : Option (Int × Int) := do
  let sec ← checkedLong (ts.tvSec - last.tvSec)
  let sec ← checkedLong (sec * 1000000)
  let nsec ← checkedLong (ts.tvNsec - last.tvNsec)
  let nsec ← checkedLong (nsec + 500)
  let usecs ← checkedLong (sec + nsec.tdiv 1000)
  let rounded ← checkedLong (usecs + 500)
  let msecs := rounded.tdiv 1000
  let whole ← checkedLong (msecs * 1000)
  let whole ← checkedLong (whole - 500)
  let usecs ← checkedLong (usecs - whole)
  return (msecs, usecs)

/-- The end of the line. -/
def elapsedText (ts last : Timespec) : Option (List UInt8) :=
  if last.tvSec ≠ 0 then
    (elapsedParts ts last).map fun (msecs, usecs) =>
      ascii " " ++ decimal msecs ++ ascii "." ++ zeroPadded 3 usecs ++ ascii "ms\n"
  else some (ascii " UNSOLICITED?\n")

/-- What stands in front of the time. -/
def replyFront (ctl : RunState) (p : Arrival) : List UInt8 :=
  let printed := dstIp p ≠ ctl.gsrc
  (if p.FROM.pkttype = PACKET_HOST then ascii "Unicast" else ascii "Broadcast") ++ ascii " " ++
    (if arOp p = ARPOP_REPLY then ascii "reply" else ascii "request") ++ ascii " from " ++
    inetNtoa (srcIp p) ++ ascii " [" ++ printHex (srcHw p) ++ ascii "] " ++
    (if printed then ascii "for " ++ inetNtoa (dstIp p) ++ ascii " " else []) ++
    if dstHw p ≠ memory ctl.me.addr 0 (arHln p).toNat then
      (if printed then [] else ascii "for ") ++ ascii "[" ++ printHex (dstHw p) ++ ascii "]"
    else []

/-- The line that is printed, unless we are quiet. -/
def replyLine (ctl : RunState) (ts : Timespec) (p : Arrival) : Option (List UInt8) :=
  if ctl.quiet then some []
  else (elapsedText ts ctl.last).map fun time => replyFront ctl p ++ time

/-! ## The counters -/

/-- What is behind the early return. -/
def countKind (ctl : RunState) (p : Arrival) : Option RunState := do
  let brdRecv ← countIf (p.FROM.pkttype ≠ PACKET_HOST) ctl.brdRecv
  let reqRecv ← countIf (arOp p = ARPOP_REQUEST) ctl.reqRecv
  return { ctl with brdRecv := brdRecv, reqRecv := reqRecv }

/-- The next probe goes to the host that has answered. -/
def unicast (ctl : RunState) (p : Arrival) : RunState :=
  if ctl.broadcastOnly then ctl
  else
    { ctl with
      he :=
        { ctl.he with
          addr := fun i => if i < ctl.me.halen.toNat then p.buf (8 + i) else ctl.he.addr i }
      unicasting := true }

/-- `recv_pack`: the state, what is printed, and what is returned. -/
def recvPack (ctl : RunState) (ts : Timespec) (p : Arrival) :
    Option (RunState × List UInt8 × Returned) :=
  if passes ctl p then do
    let line ← replyLine ctl ts p
    let received ← checkedInt (ctl.received + 1)
    let ctl := { ctl with received := received }
    if ctl.timeout ≠ 0 ∧ ctl.received = ctl.count then return (ctl, line, .finalPacks)
    let ctl ← countKind ctl p
    if ctl.quitOnReply ∨ (ctl.count = 0 ∧ ctl.received = ctl.sent) then
      return (ctl, line, .finalPacks)
    return (unicast ctl p, line, .counted)
  else some (ctl, [], .ignored)

/-- What `recv_pack` does with a packet. -/
theorem recvPack_cases {ctl : RunState} {ts : Timespec} {p : Arrival}
    {r : RunState × List UInt8 × Returned} (h : recvPack ctl ts p = some r) :
    (passes ctl p = false ∧ r = (ctl, [], .ignored)) ∨
    (passes ctl p = true ∧ ∃ line, replyLine ctl ts p = some line ∧
      ((ctl.timeout ≠ 0 ∧ ctl.received + 1 = ctl.count ∧
          r = ({ ctl with received := ctl.received + 1 }, line, .finalPacks)) ∨
        (¬(ctl.timeout ≠ 0 ∧ ctl.received + 1 = ctl.count) ∧
          ∃ counted, countKind { ctl with received := ctl.received + 1 } p = some counted ∧
            (r = (counted, line, .finalPacks) ∨ r = (unicast counted p, line, .counted))))) := by
  rw [recvPack] at h
  by_cases hpasses : passes ctl p = true
  · rw [if_pos hpasses] at h
    obtain ⟨line, hline, h⟩ := Option.bind_eq_some_iff.mp h
    obtain ⟨received, hreceived, h⟩ := Option.bind_eq_some_iff.mp h
    obtain ⟨-, rfl⟩ := checkedInt_eq_some.mp hreceived
    refine .inr ⟨hpasses, line, hline, ?_⟩
    by_cases hlast : ctl.timeout ≠ 0 ∧ ctl.received + 1 = ctl.count
    · rw [if_pos (show _ ∧ _ from hlast)] at h
      cases h
      exact .inl ⟨hlast.1, hlast.2, rfl⟩
    · rw [if_neg (show ¬(_ ∧ _) from hlast)] at h
      obtain ⟨counted, hcounted, h⟩ := Option.bind_eq_some_iff.mp h
      refine .inr ⟨hlast, counted, hcounted, ?_⟩
      split at h
      · cases h
        exact .inl rfl
      · cases h
        exact .inr rfl
  · rw [if_neg hpasses] at h
    cases h
    exact .inl ⟨Bool.not_eq_true _ ▸ hpasses, rfl⟩

end Coping.Arping
