import Coping.Library.ClassicBpf
import Coping.Ping.Reply

/-!
# Socket filters

The programs of `ping4_install_filter` and `ping6_install_filter`. The identifier is patched in
before a program is attached; `ident` has the byte order of the packet, and the filter compares
numbers.
-/

namespace Coping

open ClassicBpf

/-- `insns` of `ping4_install_filter`. A raw socket gets the IP header too. -/
def insns4 : List Insn :=
  [.ldxMsh 0,
    .ldInd .half 4,
    .jeq 0xAAAA 0 1,
    .ret 0xFFFFFFFF,
    .ldInd .byte 0,
    .jeq ICMP_ECHOREPLY.toUInt32 1 0,
    .ret 0xFFFFFFF,
    .ret 0]

/-- `insns` of `ping6_install_filter`. -/
def insns6 : List Insn :=
  [.ldAbs .half 4,
    .jeq 0xAAAA 0 1,
    .ret 0xFFFFFFFF,
    .ldAbs .byte 0,
    .jeq ICMP6_ECHO_REPLY.toUInt32 1 0,
    .ret 0xFFFFFFFF,
    .ret 0]

/-- The comparison with the identifier. `htons` takes the low half of it. -/
def identInsn (order : ByteOrder) (rts : PingRts) : Insn :=
  .jeq (order.htons (UInt16.ofInt rts.ident)).toUInt32 0 1

/-- The filter that is attached. -/
def ping4InstallFilter (order : ByteOrder) (rts : PingRts) : List Insn :=
  insns4.set 2 (identInsn order rts)

def ping6InstallFilter (order : ByteOrder) (rts : PingRts) : List Insn :=
  insns6.set 1 (identInsn order rts)

end Coping
