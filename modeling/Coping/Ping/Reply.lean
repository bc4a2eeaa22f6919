import Coping.Library.JsonStray
import Coping.Ping.ErrorQueue
import Coping.Ping.Options
import Coping.Ping.Output
import Coping.Ping.Statistics

/-!
# Replies

`parse_reply` of both families, and what is printed for a reply with `-j`: by
`gather_statistics` and the functions it calls, of `ping_common.c`, `ping6_common.c` and
`ping_output.c`. A packet is taken apart already; the checksum is compared and the names
and addresses are looked up.

The texts about messages that are no replies are left out. None of them goes through the
JSON buffer.
-/

namespace Coping

open CFormat

def PING_ERROR_MAX : Nat := 300

def ICMP_ECHOREPLY : UInt8 := 0

def ICMP_DEST_UNREACH : UInt8 := 3

def ICMP_SOURCE_QUENCH : UInt8 := 4

def ICMP_REDIRECT : UInt8 := 5

def ICMP_TIME_EXCEEDED : UInt8 := 11

def ICMP_PARAMETERPROB : UInt8 := 12

def ICMP6_ECHO_REPLY : UInt8 := 129

def IPUTILS_NI_ICMP6_REPLY : UInt8 := 140

def IPPROTO_ICMPV6 : UInt8 := 58

def IPUTILS_NI_QTYPE_DNSNAME : UInt16 := 2

def IPUTILS_NI_QTYPE_IPV6ADDR : UInt16 := 3

def IPUTILS_NI_QTYPE_IPV4ADDR : UInt16 := 4

/-- The options that only the code around received packets reads. -/
structure Settings where
  optJson : Bool := false
  optAudible : Bool := false
  optRttPrecision : Bool := false
  optVerbose : Bool := false
  optFloodPoll : Bool := false
  subnetRouterAnycast : Bool := false

/-! ## Printing with `-j` -/

inductive Printed where
  /-- `printf`, `putchar` and `write_stdout`, which do not look at `opt_json`. -/
  | raw (text : List UInt8)
  /-- `construct_json`. -/
  | field (field : JsonField)
  /-- `construct_json_error`. What `va_arg` finds behind the two texts is `behind`. -/
  | error (errnum : Int) (msg : CString) (behind : List CString)

/-- What is on standard output, and the buffer. -/
abbrev Screen := List UInt8 × PingJsonBuffer

def Printed.print (strerror : Int → CString) (screen : Screen) : Printed → Except JsonStop Screen
  | .raw text => .ok (screen.1 ++ text, screen.2)
  | .field f => (constructJson true screen.2 f).map fun b => (screen.1, b)
  | .error errnum msg behind =>
      (constructJsonError true strerror behind screen.2 errnum (some msg)).map fun printed =>
        (screen.1 ++ printed.1, printed.2)

def printAll (strerror : Int → CString) (items : List Printed) (b : PingJsonBuffer) :
    Except JsonStop Screen :=
  items.foldlM (Printed.print strerror) ([], b)

/-- A packet of the loop: what is printed, and `print_json_packet` behind it. -/
def printPacket (strerror : Int → CString) (items : List Printed) (b : PingJsonBuffer) :
    Except JsonStop Screen :=
  (printAll strerror items b).map fun screen =>
    let packet := printJsonPacket true screen.2
    (screen.1 ++ packet.1, packet.2)

/-- `ping_error` with a status of zero. -/
def pingError (errnum : Int) (text : List UInt8) (behind : List CString) : Printed :=
  .error errnum (cString (truncated PING_ERROR_MAX text)) behind

/-! ## Node information -/

/-- A name that `dn_expand` has written, and how many bytes of the packet it is. A quote in
it is written with a backslash in front. -/
structure DnName where
  bytes : List UInt8
  escaped : Json.EscapedText bytes
  ret : Nat
  positive : 0 < ret

/-- A text that `inet_ntop` has written: digits, dots and colons. -/
structure AddressText where
  bytes : List UInt8
  plain : bytes.all Json.isPlain = true

def AddressText.empty : AddressText := ⟨[], rfl⟩

/-- What is behind the common header of a node information reply. Offsets are from the
start of the message. -/
structure NiReply where
  code : UInt8 := 0
  qtype : UInt16 := 0
  truncateFlag : Bool := false
  nonceSeq : UInt16 := 0
  nonceDigest : Vector UInt8 6 := Vector.replicate 6 0
  /-- `dn_expand` at an offset. -/
  name : Nat → Option DnName := fun _ => none
  /-- `inet_ntop` of the address at an offset. -/
  address : Nat → AddressText := fun _ => .empty

/-- `putchar_safe`. The character is converted to `int` for `%03o`. -/
def putcharSafe (c : UInt8) : List UInt8 :=
  if 0x20 ≤ c ∧ c ≤ 0x7e then [c]
  else Json.backslash :: based 8 3 (if c < 0x80 then c.toNat else 2 ^ 32 - 256 + c.toNat)

def errorField (reason : List UInt8) : Printed := .field (.str .error (cString reason))

/-- `ping_print_truncated`. -/
def printTruncated : Printed := .field (.str .info (cString (ascii "truncated")))

def commaBefore (continued : Bool) : List Printed := if continued then [.raw (ascii ",")] else []

/-- The loop of `pr_niquery_reply_name`. -/
def niNames (icmp : Nat → UInt8) (ni : NiReply) (size : Nat) (continued : Bool) (p : Nat) :
    List Printed :=
  if p < size then
    commaBefore continued ++
      match ni.name p with
      | none => [errorField (ascii "truncated")]
      | some name =>
          let fqdn := ¬(p + name.ret < size ∧ icmp (p + name.ret) = 0)
          .raw (ascii " " ++ name.bytes.flatMap putcharSafe ++ if fqdn then ascii "." else []) ::
            niNames icmp ni size true (p + name.ret + if fqdn then 0 else 1)
  else []
termination_by size - p
decreasing_by
  have := name.positive
  omega

/-- The loop of `pr_niquery_reply_addr`. -/
def niAddresses (ni : NiReply) (size aflen : Nat) (continued : Bool) (p : Nat) : List Printed :=
  if p < size then
    commaBefore continued ++
      if p + 4 + aflen > size then [errorField (ascii "truncated")]
      else
        .raw (ascii " " ++ (ni.address (p + 4)).bytes) ::
          niAddresses ni size aflen true (p + 4 + aflen)
  else []
termination_by size - p

def niReplyName (icmp : Nat → UInt8) (ni : NiReply) (len : Int) : List Printed :=
  if len < 16 + 4 then [errorField (ascii "too short")]
  else niNames icmp ni len.toNat false (16 + 4)

def niReplyAddr (ni : NiReply) (len : Int) (aflen : Nat) : List Printed :=
  if len < 0 then [errorField (ascii "too short")]
  else
    niAddresses ni len.toNat aflen false 16 ++ if ni.truncateFlag then [printTruncated] else []

/-- `pr_niquery_reply`. -/
def prNiqueryReply (icmp : Nat → UInt8) (ni : NiReply) (len : Int) : List Printed :=
  (if ni.code = 0 then
      if ni.qtype = IPUTILS_NI_QTYPE_DNSNAME then niReplyName icmp ni len
      else if ni.qtype = IPUTILS_NI_QTYPE_IPV4ADDR then niReplyAddr ni len 4
      else if ni.qtype = IPUTILS_NI_QTYPE_IPV6ADDR then niReplyAddr ni len 16
      else [errorField (ascii "unknown qtype")]
    else if ni.code = 1 then [.raw (ascii " refused")]
    else if ni.code = 2 then [.raw (ascii " unknown")]
    else [.raw (ascii " unknown code(" ++ based 16 2 (ni.code.toNat * 256) ++ ascii ")")]) ++
    [.raw (ascii "; seq=" ++ decimal ni.nonceSeq.toNat ++ ascii ";")]

/-! ## A reply -/

/-- What is printed for a time of day that goes back. -/
def goesBack (tv stamp : Timeval) : Printed :=
  pingError 0 (ascii "Warning: time of day goes back (" ++
    decimal (clampUsec (tvsub tv stamp)).tvSec ++ ascii " s), taking countermeasures") []

def timeWarnings (rts : PingRts) (reply : Reply) : List Printed :=
  if rts.timing ∧ reply.cc ≥ TIMED_LEN ∧ elapsed reply.tv reply.stamp = none then
    goesBack reply.tv reply.stamp ::
      if ¬rts.optLatency ∧ elapsed reply.now reply.stamp = none then
        [goesBack reply.now reply.stamp]
      else []
  else []

/-- `outtime`. -/
def replyTime (optRttPrecision : Bool) (triptime : Int) : List UInt8 :=
  let point (width : Nat) (num dec : Int) := decimal num ++ ascii "." ++ zeroPadded width dec
  truncated 30 <|
    if optRttPrecision then point 3 (triptime.tdiv 1000) (triptime.tmod 1000)
    else if triptime ≥ 100000 - 50 then decimal ((triptime + 500).tdiv 1000)
    else if triptime ≥ 10000 - 5 then
      point 1 ((triptime + 50).tdiv 1000) (((triptime + 50).tmod 1000).tdiv 100)
    else if triptime ≥ 1000 then
      point 2 ((triptime + 5).tdiv 1000) (((triptime + 5).tmod 1000).tdiv 10)
    else point 3 (triptime.tdiv 1000) (triptime.tmod 1000)

/-- The probe that an error message quotes. -/
structure QuotedProbe where
  ihl : Nat := 5
  /-- What follows the IPv6 header, and the fragment header if there is one. -/
  nexthdr : UInt8 := IPPROTO_ICMPV6
  target : UInt32 := 0
  target6 : BitVec 128 := 0
  type : UInt8 := 0
  id : UInt16 := 0
  sequence : UInt16 := 0

/-- A packet as `parse_reply` reads it. -/
structure Packet where
  /-- `cc` is without the IP header here. -/
  reply : Reply
  type : UInt8
  id : UInt16 := 0
  /-- Of the IP header that a raw socket gets. -/
  ihl : Nat := 5
  /-- `cmsg_len` of the options that a datagram socket gets. -/
  retopts : Nat := 0
  options : Nat → UInt8 := fun _ => 0
  /-- The time to live. There may be none with IPv6. -/
  hops : Int := -1
  /-- The message, from its type on. -/
  icmp : Nat → UInt8 := fun _ => 0
  source : UInt32 := 0
  source6 : BitVec 128 := 0
  host : HostText
  quoted : QuotedProbe := {}
  ni : NiReply := {}
  /-- The clock that `print_timestamp` reads. -/
  clock : Timeval := {}

/-- `print_timestamp`. -/
def timestampText (rts : PingRts) (clock : Timeval) : List Printed :=
  if rts.optPtimeofday then
    [.raw (ascii "[" ++ decimal (clock.tvSec % 2 ^ 64) ++ ascii "." ++
      zeroPadded 6 (clock.tvUsec % 2 ^ 64) ++ ascii "] ")]
  else []

/-- The byte at which the loop over the data stops. -/
def wrongByte (rts : PingRts) (icmp : Nat → UInt8) : Option Nat :=
  (List.range' 16 (rts.datalen - 16)).find? fun i =>
    icmp (8 + i) ≠ (rts.outpack.bytes[8 + i]?).getD 0

/-- What is printed for altered data, with a dump of them. -/
def dataText (rts : PingRts) (icmp : Nat → UInt8) : List Printed :=
  match wrongByte rts icmp with
  | none => []
  | some i =>
      [.raw (ascii "\nwrong data byte #" ++ decimal i ++ ascii " should be 0x" ++
        based 16 0 ((rts.outpack.bytes[8 + i]?).getD 0).toNat ++ ascii " but was 0x" ++
        based 16 0 (icmp (8 + i)).toNat ++
        (List.range' 16 (rts.datalen - 16)).flatMap fun (i : Nat) =>
          (if i % 32 = 16 then ascii "\n#" ++ decimal i ++ ascii "\t" else []) ++
            based 16 0 (icmp (8 + i)).toNat ++ ascii " ")]

/-- A text that is printed under a condition. -/
def remark (shown : Bool) (text : String) : List Printed :=
  if shown then [.raw (ascii text)] else []

/-- The duplicates of a multicast are expected. -/
def dupShown (s : Settings) (rts : PingRts) (reply : Reply) : Bool :=
  !reply.csfailed && marked rts reply.seq && (!rts.multicast || s.optVerbose)

def intField (key : JsonKey) (val : Int) : Printed := .field (.int key (Int32.ofInt val))

/-- `ntohs`. -/
def ntohs (x : UInt16) : UInt16 := x >>> 8 ||| x <<< 8

/-- `from`, of `ping_print_str`. -/
def hostField (host : HostText) : Printed := .field (.str .host (cString host.bytes))

/-- The part of `gather_statistics` up to the time to live. -/
def replyHead (s : Settings) (rts : PingRts) (p : Packet) (prReply : List Printed) :
    List Printed :=
  timestampText rts p.clock ++ [intField .bytes p.reply.cc, hostField p.host] ++ prReply ++
    (if s.optVerbose ∧ rts.ident ≠ -1 then
      [intField .ident (ntohs (UInt16.ofInt rts.ident)).toNat] else []) ++
    if p.hops ≥ 0 then [intField .ttl p.hops] else []

/-- The time of a reply, zero if there is none in it. -/
def shownTime (rts : PingRts) (reply : Reply) : Int :=
  if rts.timing ∧ reply.cc ≥ TIMED_LEN then triptime rts.optLatency reply else 0

def timeField (s : Settings) (rts : PingRts) (reply : Reply) : List Printed :=
  if rts.timing then
    [.field (.str .time (cString (replyTime s.optRttPrecision (shownTime rts reply))))]
  else []

/-- The part of it from the time on. -/
def replyTail (s : Settings) (rts : PingRts) (p : Packet) (wrongSource : Bool) : List Printed :=
  timeField s rts p.reply ++ remark (dupShown s rts p.reply) " (DUP!)" ++
    remark p.reply.csfailed " (BAD CHECKSUM!)" ++ remark wrongSource " (DIFFERENT ADDRESS!)" ++
    dataText rts p.icmp

/-- What `gather_statistics` prints, and whether it returns 1. The counters are behind it by
then; no option that is read here is changed by them. -/
def gatherPrinted (s : Settings) (rts : PingRts) (p : Packet) (prReply : List Printed)
    (wrongSource : Bool) : List Printed × Bool :=
  let warnings := timeWarnings rts p.reply
  if rts.optQuiet then (warnings, true)
  else if rts.optFlood then
    (warnings ++ [.raw (if p.reply.csfailed then ascii "\x08C" else ascii "\x08 \x08")], false)
  else if p.reply.cc < rts.datalen + 8 then
    (warnings ++ replyHead s rts p prReply ++ [printTruncated], true)
  else (warnings ++ replyHead s rts p prReply ++ replyTail s rts p wrongSource, false)

/-! ## `parse_reply` -/

/-- What `parse_reply` leaves behind. -/
structure Parsed where
  rts : PingRts
  /-- It returns 1. -/
  notOurs : Bool
  printed : List Printed := []
  oldRr : List UInt8

/-- The size of the options. -/
def Packet.olen (p : Packet) (sock : SockType) : Nat :=
  if sock = .raw then p.ihl * 4 - 20 else p.retopts

/-- The bell. -/
def audible (s : Settings) : List Printed := if s.optAudible then [.raw [0x07]] else []

/-- What is printed behind a reply that is complete. `ping_finish_line` prints nothing. -/
def replyEnd (prAddr : PrAddr) (s : Settings) (sock : SockType) (rts : PingRts) (p : Packet)
    (oldRr : List UInt8) : List Printed × List UInt8 :=
  if rts.optFlood then (audible s, oldRr)
  else
    let options := prOptions prAddr p.options false 0 (p.olen sock) oldRr
    (audible s ++ [.raw options.1], options.2)

/-- The seq of an echo reply. -/
def prEchoReply (seq : UInt16) : List Printed := [.field (.uint .seq seq.toUInt32)]

def ping4ParseReply (prAddr : PrAddr) (s : Settings) (sock : SockType) (rts : PingRts)
    (oldRr : List UInt8) (p : Packet) : Parsed :=
  if sock = .raw ∧ (p.reply.cc < 8 ∨ p.ihl < 5) then
    { rts := rts
      notOurs := true
      printed := if s.optVerbose then
          [pingError 0 (ascii "packet too short (" ++ decimal (p.reply.cc + p.ihl * 4) ++
            ascii " bytes) from " ++ p.host.bytes) []]
        else []
      oldRr := oldRr }
  else if p.type = ICMP_ECHOREPLY then
    if ¬isOurs rts sock p.id then { rts := rts, notOurs := true, oldRr := oldRr }
    else
      let wrongSource := !rts.broadcastPings && !rts.multicast && p.source ≠ rts.whereto
      let gathered := gatherPrinted s rts p (prEchoReply p.reply.seq) wrongSource
      let ended := if gathered.2 then ([], oldRr) else replyEnd prAddr s sock rts p oldRr
      { rts := gatherStatistics rts p.reply
        notOurs := false
        printed := gathered.1 ++ ended.1
        oldRr := ended.2 }
  else if p.type = ICMP_ECHO then { rts := rts, notOurs := true, oldRr := oldRr }
  else if p.type = ICMP_SOURCE_QUENCH ∨ p.type = ICMP_REDIRECT ∨ p.type = ICMP_DEST_UNREACH ∨
      p.type = ICMP_TIME_EXCEEDED ∨ p.type = ICMP_PARAMETERPROB then
    if p.reply.cc < 8 + 20 + 8 ∨ p.reply.cc < 8 + p.quoted.ihl * 4 + 8 ∨
        p.quoted.type ≠ ICMP_ECHO ∨ p.quoted.target ≠ rts.whereto ∨
        ¬isOurs rts sock p.quoted.id then
      { rts := rts, notOurs := true, oldRr := oldRr }
    else if p.type ≠ ICMP_REDIRECT ∧ p.type ≠ ICMP_SOURCE_QUENCH then
      { rts := acknowledge rts p.quoted.sequence, notOurs := false, oldRr := oldRr }
    else { rts := rts, notOurs := true, oldRr := oldRr }
  else { rts := rts, notOurs := false, oldRr := oldRr }

/-- A message that is no reply. It should not arrive at all. -/
def ping6ParseMessage (s : Settings) (sock : SockType) (rts : PingRts) (oldRr : List UInt8)
    (p : Packet) : Parsed :=
  if p.reply.cc < 8 + 40 + 8 ∨ p.quoted.target6 ≠ rts.whereto6 then
    { rts := rts, notOurs := true, oldRr := oldRr }
  else if p.quoted.nexthdr = IPPROTO_ICMPV6 then
    if p.quoted.type ≠ ICMP6_ECHO_REQUEST ∨ ¬isOurs rts sock p.quoted.id then
      { rts := rts, notOurs := true, oldRr := oldRr }
    else { rts := acknowledge rts p.quoted.sequence, notOurs := false, oldRr := oldRr }
  else if ¬s.optVerbose ∨ rts.uid ≠ 0 then { rts := rts, notOurs := true, oldRr := oldRr }
  else { rts := rts, notOurs := false, oldRr := oldRr }

/-- The checksum of an ICMPv6 message has been checked by the kernel. -/
def goodReply (reply : Reply) : Reply := { reply with csfailed := false }

/-- A reply to a node information query is counted under the number in its nonce. -/
def Packet.counted (p : Packet) : Packet :=
  { p with
    reply := goodReply
      (if p.type = ICMP6_ECHO_REPLY then p.reply else { p.reply with seq := p.ni.nonceSeq }) }

/-- `niquery_check_nonce`. -/
def niqueryCheckNonce (ni : PingNi) (reply : NiReply) : Bool :=
  ni.digest reply.nonceSeq = reply.nonceDigest

def ping6ParseReply (s : Settings) (sock : SockType) (rts : PingRts) (oldRr : List UInt8)
    (p : Packet) : Parsed :=
  let finished (prReply : List Printed) (wrongSource : Bool) : Parsed :=
    let gathered := gatherPrinted s rts p.counted prReply wrongSource
    { rts := gatherStatistics rts p.counted.reply
      notOurs := false
      printed := gathered.1 ++ if gathered.2 then [] else audible s
      oldRr := oldRr }
  if p.reply.cc < 8 then
    { rts := rts
      notOurs := true
      printed := if s.optVerbose then
          [pingError 0 (ascii "packet too short: " ++ decimal p.reply.cc ++ ascii " bytes") []]
        else []
      oldRr := oldRr }
  else if p.type = ICMP6_ECHO_REPLY then
    if ¬isOurs rts sock p.id then { rts := rts, notOurs := true, oldRr := oldRr }
    else
      finished (prEchoReply p.reply.seq)
        (!rts.multicast && !s.subnetRouterAnycast && p.source6 ≠ rts.whereto6)
  else if p.type = IPUTILS_NI_ICMP6_REPLY then
    if ¬niqueryCheckNonce rts.ni p.ni then { rts := rts, notOurs := true, oldRr := oldRr }
    else finished (prNiqueryReply p.icmp p.ni p.reply.cc) false
  else ping6ParseMessage s sock rts oldRr p

/-- `parse_reply` of the family's `ping_func_set_st`. -/
def Family.parseReply (family : Family) (prAddr : PrAddr) (s : Settings) (sock : SockType)
    (rts : PingRts) (oldRr : List UInt8) (p : Packet) : Parsed :=
  match family with
  | .inet => ping4ParseReply prAddr s sock rts oldRr p
  | .inet6 => ping6ParseReply s sock rts oldRr p

end Coping
