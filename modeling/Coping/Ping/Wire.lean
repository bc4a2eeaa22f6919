import Coping.Library.ByteOrder
import Coping.Ping.Probe
import Coping.Ping.Reply

/-!
# Packets in the receive buffer

`parse_reply` reads a packet through pointers into the buffer that `recvmsg` has written the first
`cc` bytes of. The buffer is reused: what is behind these bytes is left over from earlier packets.
`packet4` and `packet6` follow the pointers; the host stores its words with the low byte first.
-/

namespace Coping

open CInt

abbrev Buffer := Nat → UInt8

/-- `NEXTHDR_FRAGMENT`. -/
def NEXTHDR_FRAGMENT : UInt8 := 44

/-- What `recvmsg` yields besides the bytes, and what is looked up with it. -/
structure Received where
  cc : Nat
  /-- The control message about the time to live. -/
  ttl : Option Int := none
  retopts : Nat := 0
  options : Buffer := fun _ => 0
  source : UInt32 := 0
  source6 : BitVec 128 := 0
  host : HostText
  tv : Timeval := {}
  /-- The clock when it is read again. -/
  now : Timeval := {}
  clock : Timeval := {}
  /-- What is printed of a node information reply. -/
  ni : NiReply := {}

/-- The number whose low byte comes first. -/
def leNat : List UInt8 → Nat
  | [] => 0
  | b :: bytes => b.toNat + 256 * leNat bytes

def load16 (buf : Buffer) (offset : Nat) : UInt16 :=
  ByteOrder.little.load16 (buf offset) (buf (offset + 1))

def load32 (buf : Buffer) (offset : Nat) : UInt32 := UInt32.ofNat (leNat (memory buf offset 4))

def loadTimeval (buf : Buffer) (offset : Nat) : Timeval where
  tvSec := toInt64 (leNat (memory buf offset 8))
  tvUsec := toInt64 (leNat (memory buf (offset + 8) 8))

/-- The address that `memcmp` compares. -/
def loadAddress6 (buf : Buffer) (offset : Nat) : BitVec 128 :=
  BitVec.ofNat 128 (leNat (memory buf offset 16))

/-- `ihl` of an IP header. -/
def loadIhl (buf : Buffer) (offset : Nat) : Nat := (buf offset).toNat % 16

/-- What both families read of an echo. -/
def loadReply (icmp : Buffer) (cc : Int) (csfailed : Bool) (m : Received) : Reply where
  cc := cc
  seq := ntohs (load16 icmp 6)
  csfailed := csfailed
  tv := m.tv
  stamp := loadTimeval icmp 8
  now := m.now

/-- `iph` and `icp1` of `ping4_parse_reply`. -/
def loadQuoted4 (icmp : Buffer) : QuotedProbe :=
  let ihl := loadIhl icmp 8
  { ihl := ihl
    target := load32 icmp (8 + 16)
    type := icmp (8 + ihl * 4)
    id := load16 icmp (8 + ihl * 4 + 4)
    sequence := ntohs (load16 icmp (8 + ihl * 4 + 6)) }

/-- The packet of `ping4_parse_reply`. -/
def packet4 (sock : SockType) (m : Received) (buf : Buffer) : Packet :=
  let hlen := if sock = .raw then loadIhl buf 0 * 4 else 0
  let cc : Int := m.cc - hlen
  let icmp : Buffer := fun i => buf (hlen + i)
  { reply := loadReply icmp cc (inCksum (memory icmp 0 cc.toNat) cc.toNat 0 ≠ 0) m
    type := icmp 0
    id := load16 icmp 4
    ihl := loadIhl buf 0
    retopts := m.retopts
    options := if sock = .raw then fun i => buf (20 + i) else m.options
    hops := if sock = .raw then (buf 8).toNat else m.ttl.getD 0
    icmp := icmp
    source := m.source
    host := m.host
    quoted := loadQuoted4 icmp
    clock := m.clock }

/-- `iph1` and `icmph1` of `ping6_parse_reply`. The fragment header shifts the latter. -/
def loadQuoted6 (buf : Buffer) : QuotedProbe :=
  let fragment := buf (8 + 6) = NEXTHDR_FRAGMENT
  let icmp1 := if fragment then 8 + 40 + 8 else 8 + 40
  { nexthdr := if fragment then buf (8 + 40) else buf (8 + 6)
    target6 := loadAddress6 buf (8 + 24)
    type := buf icmp1
    id := load16 buf (icmp1 + 4)
    sequence := ntohs (load16 buf (icmp1 + 6)) }

/-- The packet of `ping6_parse_reply`. -/
def packet6 (m : Received) (buf : Buffer) : Packet where
  reply := loadReply buf m.cc false m
  type := buf 0
  id := load16 buf 4
  hops := m.ttl.getD (-1)
  icmp := buf
  source6 := m.source6
  host := m.host
  quoted := loadQuoted6 buf
  ni := { m.ni with
    nonceSeq := ntohs (load16 buf 8)
    nonceDigest := Vector.ofFn fun i : Fin 6 => buf (10 + i) }
  clock := m.clock

/-! ## Words -/

theorem ntohs_eq (x : UInt16) : ntohs x = ByteOrder.little.htons x := by
  have hx := x.toNat_lt
  apply UInt16.toNat_inj.mp
  have hshift : (x <<< 8).toNat = 2 ^ 8 * (x.toNat % 256) := by
    rw [UInt16.toNat_shiftLeft]
    change x.toNat <<< 8 % 65536 = _
    rw [Nat.shiftLeft_eq]
    omega
  have hright : (x >>> 8).toNat = x.toNat / 256 := by
    rw [UInt16.toNat_shiftRight]
    change x.toNat >>> 8 = _
    rw [Nat.shiftRight_eq_div_pow]
  have hlt : x.toNat / 256 < 2 ^ 8 := by omega
  rw [ntohs, UInt16.toNat_or, hshift, hright, Nat.lor_comm, ← Nat.two_pow_add_eq_or_of_lt hlt,
    ByteOrder.htons, ByteOrder.word16_toNat, UInt8.toNat_ofNat', UInt8.toNat_ofNat']
  omega

/-- The number in two bytes. -/
theorem ntohs_load16 (b0 b1 : UInt8) :
    ntohs (ByteOrder.little.load16 b0 b1) = ByteOrder.word16 b0 b1 := by
  rw [ntohs_eq, ByteOrder.htons_load16]

theorem be16_eq (x : UInt16) :
    be16 x = [UInt8.ofNat (x.toNat / 256), UInt8.ofNat (x.toNat % 256)] := by
  have hhigh : (x >>> 8).toUInt8 = UInt8.ofNat (x.toNat / 256) := by
    apply UInt8.toNat_inj.mp
    rw [UInt16.toNat_toUInt8, UInt16.toNat_shiftRight, UInt8.toNat_ofNat']
    change (x.toNat >>> 8) % 2 ^ 8 = x.toNat / 256 % 2 ^ 8
    rw [Nat.shiftRight_eq_div_pow]
  have hlow : x.toUInt8 = UInt8.ofNat (x.toNat % 256) := by
    apply UInt8.toNat_inj.mp
    rw [UInt16.toNat_toUInt8, UInt8.toNat_ofNat']
    omega
  rw [be16, hhigh, hlow]

theorem be16_word16 (b0 b1 : UInt8) : be16 (ByteOrder.word16 b0 b1) = [b0, b1] := by
  rw [be16_eq, ByteOrder.word16_high, ByteOrder.word16_low]

/-! ## Bytes that two buffers share -/

/-- The buffers agree on their first `n` bytes. -/
def SameTo (n : Nat) (buf buf' : Buffer) : Prop := ∀ i < n, buf i = buf' i

section Same

variable {n : Nat} {buf buf' : Buffer} (same : SameTo n buf buf')

include same

theorem SameTo.shift {k m : Nat} (inside : k + m ≤ n) :
    SameTo m (fun i => buf (k + i)) (fun i => buf' (k + i)) :=
  fun i hi => same (k + i) (by omega)

theorem SameTo.memory {k m : Nat} (inside : k + m ≤ n) :
    memory buf k m = memory buf' k m :=
  List.map_congr_left fun i hi => same (k + i) (by have := List.mem_range.mp hi; omega)

theorem SameTo.load16 {k : Nat} (inside : k + 2 ≤ n) : load16 buf k = load16 buf' k := by
  rw [Coping.load16, Coping.load16, same k (by omega), same (k + 1) (by omega)]

theorem SameTo.load32 {k : Nat} (inside : k + 4 ≤ n) : load32 buf k = load32 buf' k := by
  rw [Coping.load32, Coping.load32, same.memory inside]

theorem SameTo.loadTimeval {k : Nat} (inside : k + 16 ≤ n) :
    loadTimeval buf k = loadTimeval buf' k := by
  rw [Coping.loadTimeval, Coping.loadTimeval, same.memory (by omega : k + 8 ≤ n),
    same.memory (by omega : k + 8 + 8 ≤ n)]

theorem SameTo.loadAddress6 {k : Nat} (inside : k + 16 ≤ n) :
    loadAddress6 buf k = loadAddress6 buf' k := by
  rw [Coping.loadAddress6, Coping.loadAddress6, same.memory inside]

theorem SameTo.loadIhl {k : Nat} (inside : k < n) : loadIhl buf k = loadIhl buf' k := by
  rw [Coping.loadIhl, Coping.loadIhl, same k inside]

end Same

end Coping
