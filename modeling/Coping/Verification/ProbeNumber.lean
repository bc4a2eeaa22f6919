import Coping.Library.DecimalFraction
import Coping.Ping.Lines
import Coping.Ping.Wire

/-!
# The number of a probe in the lines about it

A probe carries its number as a word of 16 bits, and so does what comes back for it. The line
about an error from the network prints the lower byte of the word alone.
-/

namespace Coping.ProbeNumber

open CFormat

/-! ## A number in a text -/

/-- A text that does not go on with a digit. -/
def Open (text : List UInt8) : Prop := ∀ c, text.head? = some c → Json.isDigit c = false

/-- The number behind `front`, with all of its digits. -/
def Shows (text front : List UInt8) (n : Nat) : Prop :=
  ∃ back, text = front ++ decimal n ++ back ∧ Open back

section Texts

variable {front back text : List UInt8}

theorem open_nil : Open [] := fun _ h => absurd h (by simp)

theorem Open.append (first : Open front) (second : Open back) : Open (front ++ back) := by
  cases front with
  | nil => exact second
  | cons c front => exact fun d hd => first d hd

theorem open_text {text : List Char}
    (h : ∃ c, text.head? = some c ∧ Json.isDigit (UInt8.ofNat c.toNat) = false)
    (back : List UInt8) :
    Open (ascii (String.ofList text) ++ back) := by
  obtain ⟨c, hc, hdigit⟩ := h
  rw [ascii_ofList]
  cases text with
  | nil => cases hc
  | cons d text =>
      cases hc
      intro e he
      cases he
      exact hdigit

theorem open_literal {text : List Char}
    (h : ∃ c, text.head? = some c ∧ Json.isDigit (UInt8.ofNat c.toNat) = false) :
    Open (ascii (String.ofList text)) := by
  have hopen := open_text h []
  rwa [List.append_nil] at hopen

/-- The digits end where the number does. -/
theorem takeWhile_digits (n : Nat) (h : Open back) :
    (digits n ++ back).takeWhile Json.isDigit = digits n := by
  rw [List.takeWhile_append_of_pos (DecimalFraction.digits_all n)]
  cases back with
  | nil => rw [List.takeWhile_nil, List.append_nil]
  | cons c back =>
      rw [List.takeWhile_cons_of_neg (by rw [h c rfl]; decide), List.append_nil]

/-- No more than one number is shown. -/
theorem Shows.unique {m n : Nat} (first : Shows text front m) (second : Shows text front n) :
    m = n := by
  obtain ⟨back, htext, hback⟩ := first
  obtain ⟨back', htext', hback'⟩ := second
  rw [htext, List.append_assoc, List.append_assoc, List.append_cancel_left_eq,
    decimal_natCast, decimal_natCast] at htext'
  have hdigits := congrArg (List.takeWhile Json.isDigit) htext'
  rw [takeWhile_digits m hback, takeWhile_digits n hback'] at hdigits
  rw [← natOfDigits_digits m, hdigits, natOfDigits_digits]

end Texts

/-! ## A probe -/

/-- The probe with the number `k`, as it is sent. -/
structure Sent (family : Family) (k : Nat) where
  rts : PingRts
  now : Timeval
  number : rts.ntransmitted + 1 = k

namespace Sent

variable {family : Family} {k : Nat} (probe : Sent family k)

def bytes : List UInt8 := (family.sendProbe probe.rts probe.now).2

/-- It is a query for node information. -/
def query : Bool := family = .inet6 && niqueryIsEnabled probe.rts.ni

/-- The word that what comes back is told by: the sequence number of an echo, or the beginning
of a nonce. -/
def seq : UInt16 :=
  let offset := if probe.query then 8 else 6
  ntohs (ByteOrder.little.load16 (probe.bytes.getD offset 0) (probe.bytes.getD (offset + 1) 0))

end Sent

theorem getElem_write {p : Outpack} {offset i : Nat} {bs : List UInt8}
    (start : offset ≤ MAXPACKET) (inside : i < MAXPACKET) :
    (p.write offset bs).bytes[i]? =
      if offset ≤ i ∧ i < offset + bs.length then bs[i - offset]? else p.bytes[i]? := by
  have hsize := p.size
  rw [← getElem?_written (by omega)]
  exact List.getElem?_take_of_lt inside

/-- The buffer has a word with its high byte first at an offset. -/
def HasWord (p : Outpack) (offset : Nat) (x : UInt16) : Prop :=
  p.bytes[offset]? = some (UInt8.ofNat (x.toNat / 256)) ∧
    p.bytes[offset + 1]? = some (UInt8.ofNat (x.toNat % 256))

theorem HasWord.write {p : Outpack} {offset start : Nat} {x : UInt16} {bs : List UInt8}
    (h : HasWord p offset x) (inside : offset + 2 ≤ MAXPACKET) (room : start ≤ MAXPACKET)
    (away : start + bs.length ≤ offset ∨ offset + 2 ≤ start) :
    HasWord (p.write start bs) offset x := by
  constructor
  · rw [getElem_write room (by omega), if_neg (by omega), h.1]
  · rw [getElem_write room (by omega), if_neg (by omega), h.2]

/-- A word that is written with what is around it. -/
theorem HasWord.start {front back : List UInt8} (p : Outpack) (x : UInt16)
    (inside : front.length + 2 ≤ MAXPACKET) :
    HasWord (p.write 0 (front ++ be16 x ++ back)) front.length x := by
  have hlength : (front ++ be16 x ++ back).length = front.length + (2 + back.length) := by
    rw [List.length_append, List.length_append, Nat.add_assoc]
    rfl
  have hword : ∀ j, j < 2 → (p.write 0 (front ++ be16 x ++ back)).bytes[front.length + j]? =
      (be16 x)[j]? := by
    intro j hj
    rw [getElem_write (Nat.zero_le _) (by omega), if_pos (by omega), Nat.sub_zero,
      List.append_assoc, List.getElem?_append_right (by omega), Nat.add_sub_cancel_left]
    exact List.getElem?_append_left hj
  rw [be16_eq] at hword ⊢
  exact ⟨hword 0 (by decide), hword 1 (by decide)⟩

/-- The number in a packet that is taken out of the buffer. -/
theorem HasWord.load {p : Outpack} {offset : Nat} {x : UInt16} (h : HasWord p offset x)
    {n : Nat} (inside : offset + 2 ≤ n) :
    ntohs (ByteOrder.little.load16 ((p.bytes.take n).getD offset 0)
      ((p.bytes.take n).getD (offset + 1) 0)) = x := by
  rw [ntohs_load16, List.getD_eq_getElem?_getD, List.getD_eq_getElem?_getD,
    List.getElem?_take_of_lt (by omega), List.getElem?_take_of_lt (by omega), h.1, h.2]
  exact ByteOrder.word16_bytes x

theorem echoHeader_word (p : Outpack) (type : UInt8) (ident seq : UInt16) :
    HasWord (p.write 0 (echoHeader type 0 ident seq)) 6 seq := by
  have hheader := @HasWord.start ([type, 0] ++ le16 0 ++ le16 ident) [] p seq
    (by decide : 8 ≤ MAXPACKET)
  rw [List.append_nil] at hheader
  exact hheader

theorem HasWord.stamp {p : Outpack} {x : UInt16} (h : HasWord p 6 x) (stamp : List UInt8) :
    HasWord (p.write 8 stamp) 6 x :=
  h.write (by decide) (by decide) (.inr (by decide))

theorem HasWord.checksum {p : Outpack} {x : UInt16} (h : HasWord p 6 x) (checksum : UInt16) :
    HasWord (p.write 2 (le16 checksum)) 6 x :=
  h.write (by decide) (by decide) (.inl (by decide : 2 + 2 ≤ 6))

theorem echo4_word (rts : PingRts) (now : Timeval) :
    HasWord (echo4 rts now) 6 (low16 (rts.ntransmitted + 1)) := by
  have hheader := echoHeader_word rts.outpack ICMP_ECHO (UInt16.ofInt rts.ident)
    (low16 (rts.ntransmitted + 1))
  unfold echo4
  generalize rts.outpack.write 0 (echoHeader ICMP_ECHO 0 (UInt16.ofInt rts.ident)
    (low16 (rts.ntransmitted + 1))) = header at hheader ⊢
  have hstamped : HasWord (if rts.timing then
      if rts.optLatency then header.write 8 now.bytes else header.write 8 (List.replicate 16 0)
      else header) 6 (low16 (rts.ntransmitted + 1)) := by
    split
    · split
      · exact hheader.stamp _
      · exact hheader.stamp _
    · exact hheader
  dsimp only
  split
  · exact ((hstamped.checksum _).stamp _).checksum _
  · exact hstamped.checksum _

theorem buildEcho_word (rts : PingRts) (now : Timeval) :
    HasWord (buildEcho rts now).1 6 (low16 (rts.ntransmitted + 1)) := by
  have hheader := echoHeader_word rts.outpack ICMP6_ECHO_REQUEST (UInt16.ofInt rts.ident)
    (low16 (rts.ntransmitted + 1))
  rw [buildEcho]
  dsimp only
  split
  · exact hheader.stamp _
  · exact hheader

theorem buildNiquery_word (rts : PingRts) :
    HasWord (buildNiquery rts).1 8 (low16 (rts.ntransmitted + 1)) := by
  have hheader := @HasWord.start ([IPUTILS_NI_ICMP6_QUERY, UInt8.ofInt rts.ni.subjectType] ++
    le16 0 ++ be16 (UInt16.ofInt rts.ni.query) ++ le16 rts.ni.flag)
    ((rts.ni.digest (low16 (rts.ntransmitted + 1))).toList ++ rts.ni.subject) rts.outpack
    (low16 (rts.ntransmitted + 1)) (by decide : 10 ≤ MAXPACKET)
  rw [buildNiquery, niqueryFillNonce]
  dsimp only
  rw [← List.append_assoc] at hheader ⊢
  exact hheader

/-- What is sent carries the number. -/
theorem Sent.seq_eq {family : Family} {k : Nat} (probe : Sent family k) :
    probe.seq = low16 k := by
  obtain ⟨rts, now, rfl⟩ := probe
  cases family with
  | inet => exact (echo4_word rts now).load (by omega)
  | inet6 =>
      rw [Sent.seq, Sent.query, Sent.bytes]
      change ntohs (ByteOrder.little.load16 ((ping6SendProbe rts now).2.getD _ 0)
        ((ping6SendProbe rts now).2.getD _ 0)) = _
      cases hni : niqueryIsEnabled rts.ni with
      | true =>
          rw [ping6SendProbe, hni]
          have hlong : 8 + 2 ≤ 16 + rts.ni.subject.length := by omega
          exact (buildNiquery_word rts).load hlong
      | false =>
          rw [ping6SendProbe, hni]
          have hlong : 6 + 2 ≤ rts.datalen + 8 := by omega
          exact (buildEcho_word rts now).load hlong

/-! ## The line about a reply -/

/-- The type of a reply to an echo. -/
def echoReply : Family → UInt8
  | .inet => ICMP_ECHOREPLY
  | .inet6 => ICMP6_ECHO_REPLY

/-- What is printed in front of the number, or of the text about a node. -/
def replyFront (rts : PingRts) (p : Packet) : List Printed :=
  timestampText rts p.clock ++ [intField .bytes p.reply.cc, hostField p.host]

/-- What is printed about a node, up to the number. -/
def nodeItems (p : Packet) : List Printed := (prNiqueryReply p.icmp p.ni p.reply.cc).dropLast

section Replies

variable {rts : PingRts} {qtype : UInt16}

theorem linesOf_append (items items' : List Printed) :
    linesOf rts qtype (items ++ items') = linesOf rts qtype items ++ linesOf rts qtype items' :=
  List.flatMap_append

theorem linesOf_singleton (item : Printed) : linesOf rts qtype [item] = item.line rts qtype :=
  List.flatMap_singleton _ _

/-- The warnings go to standard error. -/
theorem linesOf_warnings (reply : Reply) : linesOf rts qtype (timeWarnings rts reply) = [] := by
  rw [timeWarnings]
  split
  · split <;> rfl
  · rfl

theorem open_remark (shown : Bool) {text : List Char}
    (h : ∃ c, text.head? = some c ∧ Json.isDigit (UInt8.ofNat c.toNat) = false) :
    Open (linesOf rts qtype (remark shown (String.ofList text))) := by
  rw [remark]
  split
  · rw [linesOf_singleton]
    exact open_literal h
  · exact open_nil

theorem open_dataText (icmp : Nat → UInt8) : Open (linesOf rts qtype (dataText rts icmp)) := by
  unfold dataText
  split
  · exact open_nil
  · rw [linesOf_singleton]
    simp only [Printed.line, List.append_assoc]
    exact open_text ⟨'\n', rfl, by decide⟩ _

theorem open_timeField (s : Settings) (reply : Reply) :
    Open (linesOf rts qtype (timeField s rts reply)) := by
  rw [timeField]
  split
  · rw [linesOf_singleton]
    simp only [Printed.line, JsonField.line, List.append_assoc]
    exact open_text ⟨' ', rfl, by decide⟩ _
  · exact open_nil

theorem open_truncated : Open (linesOf rts qtype [printTruncated]) := by
  rw [linesOf_singleton]
  exact open_text ⟨' ', rfl, by decide⟩ _

theorem open_replyTail (s : Settings) (p : Packet) (wrongSource : Bool) :
    Open (linesOf rts qtype (replyTail s rts p wrongSource)) := by
  rw [replyTail, linesOf_append, linesOf_append, linesOf_append, linesOf_append]
  exact ((((open_timeField s p.reply).append (open_remark _ ⟨' ', rfl, by decide⟩)).append
    (open_remark _ ⟨' ', rfl, by decide⟩)).append (open_remark _ ⟨' ', rfl, by decide⟩)).append
    (open_dataText p.icmp)

theorem open_prOption (prAddr : PrAddr) (cp : Nat → UInt8) (optFlood : Bool) (start : Nat)
    (oldRr : List UInt8) : Open (prOption prAddr cp optFlood start oldRr).1 := by
  rw [prOption]
  dsimp only
  split
  · rw [List.append_assoc, List.append_assoc]
    exact open_text ⟨'\n', rfl, by decide⟩ _
  split
  · split
    · exact open_nil
    split
    · exact open_literal ⟨'\t', rfl, by decide⟩
    · exact open_text ⟨'\n', rfl, by decide⟩ _
  split
  · split
    · exact open_nil
    · rw [List.append_assoc]
      exact open_text ⟨'\n', rfl, by decide⟩ _
  · exact open_text ⟨'\n', rfl, by decide⟩ _

theorem open_prOptions (prAddr : PrAddr) (cp : Nat → UInt8) (optFlood : Bool)
    (optptr totlen : Nat) (oldRr : List UInt8) :
    Open (prOptions prAddr cp optFlood optptr totlen oldRr).1 := by
  induction optptr, totlen, oldRr using prOptions.induct prAddr cp optFlood with
  | case1 optptr totlen oldRr hend =>
      rw [prOptions, if_pos hend]
      exact open_nil
  | case2 optptr totlen oldRr hmore hnop ih =>
      rw [prOptions, if_neg hmore, if_pos hnop]
      exact open_text ⟨'\n', rfl, by decide⟩ _
  | case3 optptr totlen oldRr hmore hnop olen hshort =>
      rw [prOptions, if_neg hmore, if_neg hnop]
      dsimp only
      rw [if_pos hshort]
      exact open_nil
  | case4 optptr totlen oldRr hmore hnop olen hlong option ih =>
      rw [prOptions, if_neg hmore, if_neg hnop]
      dsimp only
      rw [if_neg hlong]
      exact (open_prOption prAddr cp optFlood optptr oldRr).append ih

/-- What follows the number is no part of it: a text in front of the next number. -/
theorem replyHead_line (s : Settings) (p : Packet) (prReply : List Printed) :
    ∃ rest, Open rest ∧ linesOf rts qtype (replyHead s rts p prReply) =
      linesOf rts qtype (replyFront rts p) ++ linesOf rts qtype prReply ++ rest := by
  refine ⟨linesOf rts qtype (if s.optVerbose ∧ rts.ident ≠ -1 then
      [intField .ident (ntohs (UInt16.ofInt rts.ident)).toNat] else []) ++
    linesOf rts qtype (if p.hops ≥ 0 then [intField .ttl p.hops] else []), ?_, ?_⟩
  · apply Open.append
    · split
      · rw [linesOf_singleton]
        exact open_text ⟨' ', rfl, by decide⟩ _
      · exact open_nil
    · split
      · rw [linesOf_singleton]
        exact open_text ⟨' ', rfl, by decide⟩ _
      · exact open_nil
  · rw [replyHead, replyFront, linesOf_append, linesOf_append, linesOf_append, List.append_assoc]

theorem gatherPrinted_line (s : Settings) (p : Packet) (prReply : List Printed)
    (wrongSource : Bool) (visible : rts.optQuiet = false ∧ rts.optFlood = false) :
    ∃ rest, Open rest ∧ linesOf rts qtype (gatherPrinted s rts p prReply wrongSource).1 =
      linesOf rts qtype (replyFront rts p) ++ linesOf rts qtype prReply ++ rest := by
  obtain ⟨hquiet, hflood⟩ := visible
  obtain ⟨rest, hopen, hhead⟩ := @replyHead_line rts qtype s p prReply
  rw [gatherPrinted, if_neg (by rw [hquiet]; decide), if_neg (by rw [hflood]; decide)]
  split
  · refine ⟨rest ++ linesOf rts qtype [printTruncated], hopen.append open_truncated, ?_⟩
    rw [linesOf_append, linesOf_append, linesOf_warnings, hhead, List.nil_append,
      List.append_assoc _ rest]
  · refine ⟨rest ++ linesOf rts qtype (replyTail s rts p wrongSource),
      hopen.append (open_replyTail s p wrongSource), ?_⟩
    rw [linesOf_append, linesOf_append, linesOf_warnings, hhead, List.nil_append,
      List.append_assoc _ rest]

end Replies

/-! ## The lines -/

/-- A packet that is not too short to be looked at. -/
def Whole (family : Family) (sock : SockType) (p : Packet) : Prop :=
  match family with
  | .inet => ¬(sock = .raw ∧ (p.reply.cc < 8 ∨ p.ihl < 5))
  | .inet6 => 8 ≤ p.reply.cc

/-- A reply to a probe that is accepted and has a line printed about it. -/
structure ReplyLine {family : Family} {k : Nat} (probe : Sent family k) where
  prAddr : PrAddr
  s : Settings
  sock : SockType
  rts : PingRts
  oldRr : List UInt8
  p : Packet
  long : Whole family sock p
  carries :
    if probe.query then
      p.type = IPUTILS_NI_ICMP6_REPLY ∧ niqueryCheckNonce rts.ni p.ni = true ∧
        p.ni.nonceSeq = probe.seq
    else p.type = echoReply family ∧ isOurs rts sock p.id = true ∧ p.reply.seq = probe.seq
  visible : rts.optQuiet = false ∧ rts.optFlood = false

/-- An error from the network in the error queue, about an echo, that has a line printed about
it. -/
structure ErrorLine {family : Family} {k : Nat} (probe : Sent family k) where
  w : Surroundings
  rts : PingRts
  sock : SockType
  errno : Int
  m : QueuedError
  r : ErrorResult
  received : family.receiveErrorMsg rts sock errno (.message m) = some r
  network : r.result = 1
  carries : probe.query = false ∧ m.sequence = probe.seq
  visible : rts.optQuiet = false ∧ rts.optFlood = false

/-- A redirect or a source quench that has a line printed about it. -/
structure RedirectLine {k : Nat} (probe : Sent .inet k) where
  w : Surroundings
  rts : PingRts
  sock : SockType
  p : Packet
  carries : p.quoted.sequence = probe.seq
  visible : redirectLine w sock rts p ≠ []

/-- Nothing has come back for the last probe when the next one is due. -/
structure NoAnswerLine (k : Nat) where
  w : Surroundings
  rts : PingRts
  last : rts.ntransmitted = k
  visible : noAnswerYet rts ≠ []

/-- The lines about the probe with the number `k`. -/
inductive ProbeLine : (family : Family) → (k : Nat) → Type where
  | reply {family k} (probe : Sent family k) (line : ReplyLine probe) : ProbeLine family k
  | error {family k} (probe : Sent family k) (line : ErrorLine probe) : ProbeLine family k
  | redirect {k} (probe : Sent .inet k) (line : RedirectLine probe) : ProbeLine .inet k
  | noAnswer {family k} (line : NoAnswerLine k) : ProbeLine family k

namespace ProbeLine

variable {family : Family} {k : Nat}

/-- What is printed. -/
def text : ProbeLine family k → List UInt8
  | reply _ l =>
      linesOf l.rts l.p.ni.qtype (family.parseReply l.prAddr l.s l.sock l.rts l.oldRr l.p).printed
  | error _ l => l.r.output.flatMap (Output.line l.w)
  | redirect _ l => redirectLine l.w l.sock l.rts l.p
  | noAnswer l => (noAnswerYet l.rts).flatMap (Output.line l.w)

/-- Where the number is to be: what is printed in front of it. -/
def front : ProbeLine family k → List UInt8
  | reply probe l =>
      linesOf l.rts l.p.ni.qtype (replyFront l.rts l.p) ++
        if probe.query then linesOf l.rts l.p.ni.qtype (nodeItems l.p) ++ ascii "; seq="
        else ascii " icmp_seq="
  | error _ l =>
      (if l.rts.optPtimeofday then l.w.timestamp else []) ++ ascii "From " ++ l.w.address ++
        ascii " icmp_seq="
  | redirect _ l =>
      (if l.rts.optPtimeofday then l.w.timestamp else []) ++ ascii "From " ++ l.w.address ++
        ascii ": icmp_seq="
  | noAnswer l =>
      (if l.rts.optPtimeofday then l.w.timestamp else []) ++ ascii "no answer yet for icmp_seq="

/-- It is about an error from the error queue. -/
def isError : ProbeLine family k → Bool
  | error _ _ => true
  | _ => false

end ProbeLine

/-! ## What they show -/

theorem Sent.seq_toNat {family : Family} {k : Nat} (probe : Sent family k) :
    probe.seq.toNat = k % 65536 := by
  rw [probe.seq_eq, low16_toNat]

section Lines

variable {rts : PingRts} {w : Surroundings}

theorem timestamp_lines : (printTimestamp rts).flatMap (Output.line w) =
    if rts.optPtimeofday then w.timestamp else [] := by
  rw [printTimestamp]
  split
  · exact List.flatMap_singleton _ _
  · rfl

/-- An error that is counted as one from the network is printed as one. -/
theorem output_of_network {family : Family} {sock : SockType} {errno : Int} {m : QueuedError}
    {r : ErrorResult} (received : family.receiveErrorMsg rts sock errno (.message m) = some r)
    (network : r.result = 1) : ∃ e, r.output = netErrorOutput rts m e := by
  cases Family.receivedError received with
  | own carried origin tooLong =>
      rw [localError] at network
      split at network
      · exact absurd network (by decide : (-1 : Int) ≠ 1)
      · exact absurd network (by decide : (-1 : Int) ≠ 1)
  | other kept => exact absurd network (by decide : (0 : Int) ≠ 1)
  | network carried acknowledged => exact ⟨_, rfl⟩

end Lines

section Accepted

variable {prAddr : PrAddr} {s : Settings} {sock : SockType} {rts : PingRts} {oldRr : List UInt8}
variable {p : Packet} {qtype : UInt16}

theorem open_audible : Open (linesOf rts qtype (audible s)) := by
  rw [audible]
  split
  · intro c hc
    cases hc
    decide
  · exact open_nil

theorem open_replyEnd : Open (linesOf rts qtype (replyEnd prAddr s sock rts p oldRr).1) := by
  rw [replyEnd]
  split
  · exact open_audible
  · dsimp only
    rw [linesOf_append, linesOf_singleton]
    exact open_audible.append (open_prOptions prAddr p.options false 0 (p.olen sock) oldRr)

/-- The reply as it is counted is printed like the reply as it is received. -/
theorem replyFront_counted : replyFront rts p.counted = replyFront rts p := by
  have hcc : p.counted.reply.cc = p.reply.cc := by
    rw [Packet.counted]
    dsimp only [goodReply]
    split <;> rfl
  rw [replyFront, replyFront, hcc]
  rfl

/-- Behind the part of `gather_statistics` there is only the bell with IPv6. -/
theorem finished_line (prReply : List Printed) (wrongSource : Bool)
    (visible : rts.optQuiet = false ∧ rts.optFlood = false) :
    ∃ rest, Open rest ∧ linesOf rts qtype ((gatherPrinted s rts p.counted prReply wrongSource).1 ++
        if (gatherPrinted s rts p.counted prReply wrongSource).2 then [] else audible s) =
      linesOf rts qtype (replyFront rts p) ++ linesOf rts qtype prReply ++ rest := by
  obtain ⟨rest, hopen, hgathered⟩ := @gatherPrinted_line rts qtype s p.counted
    prReply wrongSource visible
  rw [linesOf_append, hgathered, replyFront_counted, List.append_assoc]
  refine ⟨_, hopen.append ?_, rfl⟩
  split
  · exact open_nil
  · exact open_audible

/-- What `parse_reply` prints about an accepted reply: the part of `gather_statistics`, and more
that is no number. -/
theorem echoReply_line {family : Family} (long : Whole family sock p)
    (type : p.type = echoReply family) (ours : isOurs rts sock p.id = true)
    (visible : rts.optQuiet = false ∧ rts.optFlood = false) :
    ∃ rest, Open rest ∧
      linesOf rts qtype (family.parseReply prAddr s sock rts oldRr p).printed =
        linesOf rts qtype (replyFront rts p) ++ linesOf rts qtype (prEchoReply p.reply.seq) ++
          rest := by
  cases family with
  | inet =>
      have htype : p.type = ICMP_ECHOREPLY := type
      have hlong : ¬(sock = .raw ∧ (p.reply.cc < 8 ∨ p.ihl < 5)) := long
      obtain ⟨rest, hopen, hgathered⟩ := @gatherPrinted_line rts qtype s p
        (prEchoReply p.reply.seq)
        (!rts.broadcastPings && !rts.multicast && p.source ≠ rts.whereto) visible
      rw [Family.parseReply, ping4ParseReply, if_neg hlong, if_pos htype,
        if_neg (by rw [ours]; decide)]
      dsimp only
      rw [linesOf_append, hgathered, List.append_assoc]
      refine ⟨_, hopen.append ?_, rfl⟩
      split
      · exact open_nil
      · exact open_replyEnd
  | inet6 =>
      have htype : p.type = ICMP6_ECHO_REPLY := type
      have hlong : 8 ≤ p.reply.cc := long
      rw [Family.parseReply, ping6ParseReply]
      dsimp only
      rw [if_neg (by omega), if_pos htype, if_neg (by rw [ours]; decide)]
      exact finished_line _ _ visible

theorem nodeReply_line (long : 8 ≤ p.reply.cc) (type : p.type = IPUTILS_NI_ICMP6_REPLY)
    (accepted : niqueryCheckNonce rts.ni p.ni = true)
    (visible : rts.optQuiet = false ∧ rts.optFlood = false) :
    ∃ rest, Open rest ∧
      linesOf rts qtype (Family.parseReply .inet6 prAddr s sock rts oldRr p).printed =
        linesOf rts qtype (replyFront rts p) ++
          linesOf rts qtype (prNiqueryReply p.icmp p.ni p.reply.cc) ++ rest := by
  have hecho : p.type ≠ ICMP6_ECHO_REPLY := by
    rw [type]
    decide
  rw [Family.parseReply, ping6ParseReply]
  dsimp only
  rw [if_neg (by omega), if_neg hecho, if_pos type, if_neg (by rw [accepted]; decide)]
  exact finished_line _ _ visible

end Accepted

theorem prNiqueryReply_line {rts : PingRts} {qtype : UInt16} (p : Packet) :
    linesOf rts qtype (prNiqueryReply p.icmp p.ni p.reply.cc) =
      linesOf rts qtype (nodeItems p) ++ (ascii "; seq=" ++ decimal p.ni.nonceSeq.toNat) ++
        ascii ";" := by
  rw [nodeItems, prNiqueryReply, List.dropLast_concat, linesOf_append, linesOf_singleton,
    List.append_assoc (linesOf _ _ _)]
  rfl

theorem ReplyLine.shows {family : Family} {k : Nat} {probe : Sent family k}
    (l : ReplyLine probe) :
    Shows (ProbeLine.reply probe l).text (ProbeLine.reply probe l).front (k % 65536) := by
  have hcarries := l.carries
  rw [ProbeLine.text, ProbeLine.front]
  split at hcarries
  next hquery =>
    obtain ⟨htype, haccepted, hseq⟩ := hcarries
    have hfamily : family = .inet6 := of_decide_eq_true (Bool.and_eq_true_iff.mp hquery).1
    subst hfamily
    obtain ⟨rest, hopen, hline⟩ := @nodeReply_line l.prAddr l.s l.sock _ l.oldRr _ l.p.ni.qtype
      l.long htype haccepted l.visible
    refine ⟨ascii ";" ++ rest, ?_, open_text ⟨';', rfl, by decide⟩ rest⟩
    rw [hline, prNiqueryReply_line, hseq, probe.seq_toNat, if_pos hquery]
    simp only [List.append_assoc]
  next hquery =>
    obtain ⟨htype, hours, hseq⟩ := hcarries
    obtain ⟨rest, hopen, hline⟩ := @echoReply_line l.prAddr l.s _ _ l.oldRr _ l.p.ni.qtype family
      l.long htype hours l.visible
    refine ⟨rest, ?_, hopen⟩
    have hnumber : probe.seq.toUInt32.toNat = k % 65536 := by
      rw [UInt16.toNat_toUInt32, probe.seq_toNat]
    rw [hline, prEchoReply, linesOf_singleton, hseq, if_neg hquery, Printed.line, JsonField.line,
      hnumber]
    simp only [List.append_assoc]

theorem ErrorLine.shows {family : Family} {k : Nat} {probe : Sent family k}
    (l : ErrorLine probe) :
    Shows (ProbeLine.error probe l).text (ProbeLine.error probe l).front (k % 256) := by
  obtain ⟨e, houtput⟩ := output_of_network l.received l.network
  obtain ⟨hquiet, hflood⟩ := l.visible
  have hnumber : l.m.sequence.toUInt8.toNat = k % 256 := by
    rw [UInt16.toNat_toUInt8, l.carries.2, probe.seq_toNat]
    omega
  refine ⟨ascii " " ++ l.w.icmpText e.eeType e.eeCode e.eeInfo,
    ?_, open_text ⟨' ', rfl, by decide⟩ _⟩
  rw [ProbeLine.text, houtput, netErrorOutput, if_neg (by rw [hquiet]; decide),
    if_neg (by rw [hflood]; decide), List.flatMap_append, timestamp_lines,
    List.flatMap_singleton, Output.line, pingPrintErrorPacket, hnumber, ProbeLine.front]
  simp only [List.append_assoc]

theorem RedirectLine.shows {k : Nat} {probe : Sent .inet k} (l : RedirectLine probe) :
    Shows (ProbeLine.redirect probe l).text (ProbeLine.redirect probe l).front (k % 65536) := by
  have hvisible := l.visible
  rw [ProbeLine.text, ProbeLine.front]
  rw [redirectLine] at hvisible ⊢
  split at hvisible
  · exact absurd rfl hvisible
  next hlong =>
    rw [if_neg hlong]
    split at hvisible
    · exact absurd rfl hvisible
    next htype =>
      rw [if_neg htype]
      split at hvisible
      · exact absurd rfl hvisible
      next hquoted =>
        rw [if_neg hquoted]
        split at hvisible
        · exact absurd rfl hvisible
        next hshown =>
          rw [if_neg hshown, l.carries, probe.seq_toNat]
          refine ⟨ascii " " ++ ((if l.p.reply.csfailed then ascii "(BAD CHECKSUM)" else []) ++
            l.w.icmpText l.p.type (l.p.icmp 1)
              ((memory l.p.icmp 4 4).foldl (fun n c => n * 256 + c.toNat) 0)), ?_,
            open_text ⟨' ', rfl, by decide⟩ _⟩
          simp only [List.append_assoc]

theorem NoAnswerLine.shows (family : Family) {k : Nat} (l : NoAnswerLine k) :
    Shows (@ProbeLine.noAnswer family k l).text (@ProbeLine.noAnswer family k l).front
      (k % 65536) := by
  have hvisible := l.visible
  rw [noAnswerYet] at hvisible
  split at hvisible
  next hdue =>
    refine ⟨ascii "\n", ?_, open_literal ⟨'\n', rfl, by decide⟩⟩
    rw [ProbeLine.text, noAnswerYet, if_pos hdue, List.flatMap_append, timestamp_lines,
      List.flatMap_singleton, Output.line, l.last, ProbeLine.front]
    simp only [List.append_assoc]
    rfl
  · exact absurd rfl hvisible

/-- A line shows the number of its probe in 16 bits exactly when it is not about an error or eight
bits are enough. -/
theorem number_shown {family : Family} {k : Nat} (line : ProbeLine family k) :
    Shows line.text line.front (k % 65536) ↔ (line.isError = true → k % 65536 < 256) := by
  cases line with
  | reply probe l => exact ⟨fun _ h => absurd h Bool.false_ne_true, fun _ => l.shows⟩
  | error probe l =>
      constructor
      · intro h _
        have heq := h.unique l.shows
        omega
      · intro h
        have hsmall := h rfl
        have heq : k % 256 = k % 65536 := by omega
        rw [← heq]
        exact l.shows
  | redirect probe l => exact ⟨fun _ h => absurd h Bool.false_ne_true, fun _ => l.shows⟩
  | noAnswer l => exact ⟨fun _ h => absurd h Bool.false_ne_true, fun _ => l.shows family⟩

/-- The three-hundredth probe. -/
def laterProbe : Sent .inet 300 where
  rts := { ntransmitted := 299 }
  now := {}
  number := rfl

/-- The first router answers that its time to live is exceeded. -/
def laterError : ErrorLine laterProbe where
  w := { address := ascii "192.0.2.1" }
  rts := { ntransmitted := 300 }
  sock := .dgram
  errno := 0
  m :=
    { type := ICMP_ECHO
      id := 0
      sequence := laterProbe.seq
      ee := some { eeErrno := 113, eeOrigin := SO_EE_ORIGIN_ICMP, eeType := 11 } }
  r :=
    { rts := countError (acknowledge { ntransmitted := 300 } laterProbe.seq)
      errno := 0
      result := 1
      output := [.errorPacket laterProbe.seq 11 0 0] }
  received := rfl
  network := rfl
  carries := ⟨rfl, rfl⟩
  visible := ⟨rfl, rfl⟩

/-- The line says 44. -/
theorem number_cut : ¬Shows (ProbeLine.error laterProbe laterError).text
    (ProbeLine.error laterProbe laterError).front (300 % 65536) := by
  intro h
  exact absurd (h.unique laterError.shows) (by decide)

end Coping.ProbeNumber
