import Coping.Ping.Pinger
import Coping.Ping.Reply

/-!
# Lines about a probe

What is on standard output without `-j`. `ping_print_int`, `ping_print_uint` and
`ping_print_str` print the format that stands beside the key, and what `error` prints goes
elsewhere. The newline of `ping_finish_line` is left out.

The number of a probe is passed to `ping_print_error_packet` as `uint8_t`.
-/

namespace Coping

open CInt CFormat

def IPUTILS_NI_ICMP6_SUBJ_IPV4 : Int := 2

/-- `ping_print_truncated`. -/
def truncatedText (rts : PingRts) : List UInt8 :=
  ascii " (truncated)" ++
    if rts.ni.subjectType = IPUTILS_NI_ICMP6_SUBJ_IPV4 then ascii "\n" else []

/-- `ping_print_error_parse`, or `ping_print_error_qtype`, which has a text of its own only
with `-j`. -/
def errorText (qtype : UInt16) (reason : List UInt8) : List UInt8 :=
  if reason = ascii "unknown qtype" then
    ascii " unknown qtype(0x" ++ based 16 2 qtype.toNat ++ ascii ")"
  else ascii " parse error (" ++ reason ++ ascii ")"

/-- A field of a packet. The others are of the statistics. -/
def JsonField.line (rts : PingRts) (qtype : UInt16) : JsonField → List UInt8
  | .int .bytes val => decimal val.toInt ++ ascii " bytes "
  | .str .host val => ascii "from " ++ val.bytes ++ ascii ":"
  | .uint .seq val => ascii " icmp_seq=" ++ decimal val.toNat
  | .int .ident val => ascii " ident=" ++ decimal val.toInt
  | .int .ttl val => ascii " ttl=" ++ decimal val.toInt
  | .str .time val => ascii " time=" ++ val.bytes ++ ascii " ms"
  | .str .info _ => truncatedText rts
  | .str .error reason => errorText qtype reason.bytes
  | _ => []

def Printed.line (rts : PingRts) (qtype : UInt16) : Printed → List UInt8
  | .raw text => text
  | .field shown => shown.line rts qtype
  | .error _ _ _ => []

def linesOf (rts : PingRts) (qtype : UInt16) (items : List Printed) : List UInt8 :=
  items.flatMap (Printed.line rts qtype)

/-- What the lines take from elsewhere: the clock, `pr_addr` of the sender, and the texts of
`pr_icmph` or `print_icmp`. -/
structure Surroundings where
  clock : Timeval := {}
  address : List UInt8
  icmpText : UInt8 → UInt8 → Nat → List UInt8 := fun _ _ _ => []

def Surroundings.timestamp (w : Surroundings) : List UInt8 :=
  ascii "[" ++ decimal (w.clock.tvSec % 2 ^ 64) ++ ascii "." ++
    zeroPadded 6 (w.clock.tvUsec % 2 ^ 64) ++ ascii "] "

/-- `ping_print_error_packet`. -/
def pingPrintErrorPacket (address : List UInt8) (sequence : UInt8) : List UInt8 :=
  ascii "From " ++ address ++ ascii " icmp_seq=" ++ decimal sequence.toNat ++ ascii " "

def Output.line (w : Surroundings) : Output → List UInt8
  | .stdout text => ascii text
  | .timestamp => w.timestamp
  | .error _ _ => []
  | .pingError _ _ => []
  | .errorPacket icmpSeq type code info =>
      pingPrintErrorPacket w.address icmpSeq.toUInt8 ++ w.icmpText type code info
  | .noAnswerYet icmpSeq =>
      ascii "no answer yet for icmp_seq=" ++ decimal icmpSeq ++ ascii "\n"

/-- What `ping4_parse_reply` prints about a redirect or a source quench. -/
def redirectLine (w : Surroundings) (sock : SockType) (rts : PingRts) (p : Packet) : List UInt8 :=
  if sock = .raw ∧ (p.reply.cc < 8 ∨ p.ihl < 5) then []
  else if p.type ≠ ICMP_REDIRECT ∧ p.type ≠ ICMP_SOURCE_QUENCH then []
  else if p.reply.cc < 8 + 20 + 8 ∨ p.reply.cc < 8 + p.quoted.ihl * 4 + 8 ∨
      p.quoted.type ≠ ICMP_ECHO ∨ p.quoted.target ≠ rts.whereto ∨
      ¬isOurs rts sock p.quoted.id then []
  else if rts.optQuiet ∨ rts.optFlood then []
  else
    let gateway := (memory p.icmp 4 4).foldl (fun n c => n * 256 + c.toNat) 0
    (if rts.optPtimeofday then w.timestamp else []) ++ ascii "From " ++ w.address ++
      ascii ": icmp_seq=" ++ decimal p.quoted.sequence.toNat ++ ascii " " ++
      (if p.reply.csfailed then ascii "(BAD CHECKSUM)" else []) ++
      w.icmpText p.type (p.icmp 1) gateway

end Coping
