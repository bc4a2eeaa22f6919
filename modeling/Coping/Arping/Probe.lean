import Coping.Ping.Wire

/-!
# arping

The state of `arping.c` and `send_pack`. A header field in network order stands for the
number that `ntohs` makes of it. The counters are of type `int`: a count that does not fit
has no value.
-/

namespace Coping.Arping

open CInt

def ARPHRD_NETROM : UInt16 := 0

def ARPHRD_ETHER : UInt16 := 1

def ARPHRD_AX25 : UInt16 := 3

def ARPHRD_FDDI : UInt16 := 774

def ARPOP_REQUEST : UInt16 := 1

def ARPOP_REPLY : UInt16 := 2

def ETH_P_IP : UInt16 := 0x0800

def AX25_P_IP : UInt16 := 0xcc

def PACKET_HOST : UInt8 := 0

def PACKET_BROADCAST : UInt8 := 1

def PACKET_MULTICAST : UInt8 := 2

/-- `struct in_addr`, byte by byte. -/
structure InAddr where
  b0 : UInt8 := 0
  b1 : UInt8 := 0
  b2 : UInt8 := 0
  b3 : UInt8 := 0
  deriving DecidableEq

def InAddr.bytes (a : InAddr) : List UInt8 := [a.b0, a.b1, a.b2, a.b3]

@[simp] theorem InAddr.length_bytes (a : InAddr) : a.bytes.length = 4 := rfl

/-- `struct sockaddr_ll`, and the memory from `sll_addr` on. -/
structure SockaddrLl where
  hatype : UInt16
  pkttype : UInt8 := 0
  halen : UInt8
  addr : Buffer

/-- The hardware address. -/
def SockaddrLl.hardware (s : SockaddrLl) : List UInt8 := memory s.addr 0 s.halen.toNat

@[simp] theorem SockaddrLl.length_hardware (s : SockaddrLl) :
    s.hardware.length = s.halen.toNat := length_memory s.addr 0 s.halen.toNat

/-- `struct run_state`. -/
structure RunState where
  gsrc : InAddr := {}
  gdst : InAddr
  count : Int := -1
  timeout : Int := 0
  me : SockaddrLl
  he : SockaddrLl
  last : Timespec := {}
  sent : Int := 0
  brdSent : Int := 0
  received : Int := 0
  brdRecv : Int := 0
  reqRecv : Int := 0
  advert : Bool := false
  broadcastOnly : Bool := false
  dad : Bool := false
  quiet : Bool := false
  quitOnReply : Bool := false
  unicasting : Bool := false
  unsolicited : Bool := false

/-- A counter that is incremented on a condition. -/
def countIf (condition : Bool) (n : Int) : Option Int :=
  if condition then checkedInt (n + 1) else some n

/-- A word in network order. -/
def network (x : UInt16) : List UInt8 := [UInt8.ofNat (x.toNat / 256), UInt8.ofNat (x.toNat % 256)]

/-- `ar_hrd` of a packet that is sent. -/
def sentHrd (me : SockaddrLl) : UInt16 :=
  if me.hatype = ARPHRD_FDDI then ARPHRD_ETHER else me.hatype

/-- `ar_pro`: AX.25 uses the AX.25 PID value, not the DIX code for the protocol. -/
def sentPro (hrd : UInt16) : UInt16 :=
  if hrd = ARPHRD_AX25 ∨ hrd = ARPHRD_NETROM then AX25_P_IP else ETH_P_IP

/-- The header of `ar_hrd`, `ar_pro`, `ar_hln`, `ar_pln` and `ar_op`. -/
def arpHeader (hrd pro : UInt16) (hln pln : UInt8) (op : UInt16) : List UInt8 :=
  network hrd ++ network pro ++ [hln, pln] ++ network op

@[simp] theorem length_arpHeader (hrd pro : UInt16) (hln pln : UInt8) (op : UInt16) :
    (arpHeader hrd pro hln pln op).length = 8 := rfl

/-- What `send_pack` writes to `buf`. -/
def sentBytes (ctl : RunState) : List UInt8 :=
  let op := if ctl.advert then ARPOP_REPLY else ARPOP_REQUEST
  let target := if ctl.advert then ctl.me else ctl.he
  arpHeader (sentHrd ctl.me) (sentPro (sentHrd ctl.me)) ctl.me.halen 4 op ++
    ctl.me.hardware ++ ctl.gsrc.bytes ++ memory target.addr 0 ctl.me.halen.toNat ++ ctl.gdst.bytes

/-- The packet, unless it is longer than `buf`. -/
def sentPacket (ctl : RunState) : Option (List UInt8) :=
  if (sentBytes ctl).length ≤ 256 then some (sentBytes ctl) else none

/-- `send_pack`, with the time that the clock yields. The packet is counted if all of it has
been sent. -/
def sendPack (ctl : RunState) (now : Timespec) (success : Bool) : Option RunState := do
  let _ ← sentPacket ctl
  let sent ← countIf success ctl.sent
  let brdSent ← countIf (success && !ctl.unicasting) ctl.brdSent
  return { ctl with last := if success then now else ctl.last, sent := sent, brdSent := brdSent }

/-- What `send_pack` changes. -/
theorem sendPack_eq {ctl ctl' : RunState} {now : Timespec} {success : Bool}
    (h : sendPack ctl now success = some ctl') :
    ∃ last sent brdSent, ctl' = { ctl with last := last, sent := sent, brdSent := brdSent } := by
  obtain ⟨packet, -, h⟩ := Option.bind_eq_some_iff.mp h
  obtain ⟨sent, -, h⟩ := Option.bind_eq_some_iff.mp h
  obtain ⟨brdSent, -, h⟩ := Option.bind_eq_some_iff.mp h
  exact ⟨_, sent, brdSent, (Option.some.inj h).symm⟩

end Coping.Arping
