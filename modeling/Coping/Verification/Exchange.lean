import Mathlib.Order.Interval.Finset.Nat
import Coping.Ping.SendLoop
import Coping.Verification.Checksum
import Coping.Verification.ProbeBytes
import Coping.Verification.TripTime

/-!
# Probes and their answers

`main_loop` on one side, and on the other whoever answers. What the kernel takes is on the wire
for good: it may be answered at any time, in any order, several times or never. An answer brings
back what the probe has behind its checksum. In the receive buffer it may stand behind an IP
header, and whatever is left of earlier packets stands behind it.
-/

namespace Coping.Exchange

open CInt ProbeBytes TripTime

/-- A packet that the kernel has taken. -/
structure Sent where
  number : Nat
  packet : List UInt8
  /-- The time in it, if there is one. -/
  time : Timeval

/-- The program, the wire, and a record of what was delivered and when, the newest first. -/
structure Net where
  loop : LoopState
  oldRr : List UInt8
  wire : List Sent := []
  delivered : List (Sent × Timeval) := []

inductive Event where
  | call (c : PingerCall)
  | error (errno : Int) (queue : ErrorQueue)
  /-- An answer to `sent` is in the buffer. -/
  | deliver (sent : Sent) (m : Received) (buf : Buffer)

/-- The packet that the family's `parse_reply` sees. -/
def packetOf (family : Family) (sock : SockType) (m : Received) (buf : Buffer) : Packet :=
  match family with
  | .inet => packet4 sock m buf
  | .inet6 => packet6 m buf

/-- What a call puts on the wire: its last packet, if the kernel has taken it. -/
def launched (s : PingState) (c : PingerCall) (r : Pinged) : List Sent :=
  match r.ending, r.sends.getLast?, c.attempts[r.sends.length - 1]? with
  | .sent, some packet, some a =>
      [{ number := s.rts.ntransmitted + 1, packet := packet, time := a.now }]
  | _, _, _ => []

/-- The system. The program reads what is delivered and nothing else of the wire. -/
def net (family : Family) (sock : SockType) (prAddr : PrAddr) (settings : Settings) :
    Machine Net Event where
  step s
    | .call c =>
        (pinger family sock s.loop.ping c).bind fun r =>
          ((mainLoop family sock).step s.loop (.call c)).map fun loop =>
            { s with loop := loop, wire := s.wire ++ launched s.loop.ping c r }
    | .error errno queue =>
        ((mainLoop family sock).step s.loop (.error errno queue)).map fun loop =>
          { s with loop := loop }
    | .deliver sent m buf =>
        let parsed := family.parseReply prAddr settings sock s.loop.ping.rts s.oldRr
          (packetOf family sock m buf)
        some
          { s with
            loop := { s.loop with ping := { s.loop.ping with rts := parsed.rts } }
            oldRr := parsed.oldRr
            delivered := (sent, m.tv) :: s.delivered }

/-! ## Who answers, and how -/

/-- The type of an echo reply. -/
def replyType (family : Family) : UInt8 :=
  match family with
  | .inet => ICMP_ECHOREPLY
  | .inet6 => ICMP6_ECHO_REPLY

/-- The reply carries the data back. The identifier of a datagram socket is the kernel's, and the
checksum of an ICMPv6 message is checked there. -/
structure Answers (family : Family) (sock : SockType) (request reply : List UInt8) : Prop where
  length : reply.length = request.length
  type : reply.take 1 = [replyType family]
  id : sock = .raw → (reply.drop 4).take 2 = (request.drop 4).take 2
  data : reply.drop 6 = request.drop 6
  checksum : family = .inet → inCksum reply reply.length 0 = 0

/-- The IP header in front of what a raw socket receives. -/
def headerLength (family : Family) (sock : SockType) (buf : Buffer) : Nat :=
  if family = .inet ∧ sock = .raw then loadIhl buf 0 * 4 else 0

/-- A reading of the clock. -/
structure OfClock (tv : Timeval) : Prop where
  stored : Stored tv
  normalised : Normalised tv

/-- The buffer holds an answer to the packet. -/
structure Arrives (family : Family) (sock : SockType) (sent : Sent) (m : Received) (buf : Buffer) :
    Prop where
  header : family = .inet → sock = .raw → 5 ≤ loadIhl buf 0
  cc : m.cc = headerLength family sock buf + sent.packet.length
  answers : Answers family sock sent.packet
    (memory buf (headerLength family sock buf) sent.packet.length)

/-- Only what is on the wire is answered. -/
def Faithful (family : Family) (sock : SockType) (s : Net) : Event → Prop
  | .call c => ∀ a ∈ c.attempts, OfClock a.now
  | .error _ _ => True
  | .deliver sent m buf => sent ∈ s.wire ∧ Arrives family sock sent m buf

/-- The settings with which `main` enters the loop for echo requests. -/
structure Ready (family : Family) (sock : SockType) (rts : PingRts) : Prop where
  small : rts.datalen ≤ 65527
  timing : rts.timing = decide (16 ≤ rts.datalen)
  echoes : Echoes family rts
  ident : sock = .raw → 0 ≤ rts.ident ∧ rts.ident < 65536

theorem Ready.start {family : Family} {sock : SockType} {options : PingRts}
    (ready : Ready family sock options) : Ready family sock options.start :=
  ⟨ready.small, ready.timing, ready.echoes, ready.ident⟩

/-! ## What stays the same -/

/-- Nothing that a later packet or its check depends on is different. -/
structure SameProbe (rts rts' : PingRts) : Prop where
  datalen : rts'.datalen = rts.datalen
  ni : rts'.ni = rts.ni
  timing : rts'.timing = rts.timing
  ident : rts'.ident = rts.ident
  data : ∀ n, slice rts'.outpack 24 n = slice rts.outpack 24 n

/-- The fields that these are about. -/
def probeFields (rts : PingRts) : (Nat × PingNi × Bool × Int) × Outpack :=
  ((rts.datalen, rts.ni, rts.timing, rts.ident), rts.outpack)

section Same

variable {family : Family} {sock : SockType} {rts rts' rts'' : PingRts}

theorem SameProbe.refl (rts : PingRts) : SameProbe rts rts := ⟨rfl, rfl, rfl, rfl, fun _ => rfl⟩

theorem SameProbe.trans (h : SameProbe rts rts') (h' : SameProbe rts' rts'') :
    SameProbe rts rts'' where
  datalen := h'.datalen.trans h.datalen
  ni := h'.ni.trans h.ni
  timing := h'.timing.trans h.timing
  ident := h'.ident.trans h.ident
  data n := (h'.data n).trans (h.data n)

theorem SameProbe.symm (h : SameProbe rts rts') : SameProbe rts' rts where
  datalen := h.datalen.symm
  ni := h.ni.symm
  timing := h.timing.symm
  ident := h.ident.symm
  data n := (h.data n).symm

theorem SameProbe.of_fields (h : probeFields rts' = probeFields rts) : SameProbe rts rts' := by
  obtain ⟨hsetup, houtpack⟩ := Prod.ext_iff.mp h
  obtain ⟨hdatalen, hrest⟩ := Prod.ext_iff.mp hsetup
  obtain ⟨hni, hrest⟩ := Prod.ext_iff.mp hrest
  obtain ⟨htiming, hident⟩ := Prod.ext_iff.mp hrest
  refine ⟨hdatalen, hni, htiming, hident, fun n => ?_⟩
  exact congrArg (slice · 24 n) houtpack

theorem SameProbe.echoes (h : SameProbe rts rts') (echoes : Echoes family rts) :
    Echoes family rts' := by
  rw [Echoes, h.ni]
  exact echoes

theorem SameProbe.ready (h : SameProbe rts rts') (ready : Ready family sock rts) :
    Ready family sock rts' where
  small := h.datalen ▸ ready.small
  timing := by rw [h.timing, h.datalen, ready.timing]
  echoes := h.echoes ready.echoes
  ident := h.ident ▸ ready.ident

theorem SameProbe.request (h : SameProbe rts rts') {number : Nat} {now : Timeval}
    {packet : List UInt8} (request : Request family rts' number now packet) :
    Request family rts number now packet where
  length := h.datalen ▸ request.length
  type := request.type
  id := h.ident ▸ request.id
  sequence := request.sequence
  stamp := h.timing ▸ request.stamp
  data := by rw [request.data, h.datalen, h.data]

theorem SameProbe.sendProbe (echoes : Echoes family rts) (now : Timeval) :
    SameProbe rts (family.sendProbe rts now).1 := by
  obtain ⟨p, hbuilt, houtpack, hdatalen, -⟩ := sendProbe_echo echoes now
  refine ⟨hdatalen, ?_, ?_, ?_, fun n => houtpack ▸ hbuilt.data n⟩
  · exact family.sendProbe_field (·.ni) (fun _ _ => rfl) (fun _ _ => rfl) (fun _ _ _ => rfl) rts now
  · exact family.sendProbe_field (·.timing) (fun _ _ => rfl) (fun _ _ => rfl) (fun _ _ _ => rfl)
      rts now
  · exact family.sendProbe_field (·.ident) (fun _ _ => rfl) (fun _ _ => rfl) (fun _ _ _ => rfl)
      rts now

theorem SameProbe.received {errno : Int} {queue : ErrorQueue} {r : ErrorResult}
    (received : family.receiveErrorMsg rts sock errno queue = some r) : SameProbe rts r.rts :=
  .of_fields (Family.receiveErrorMsg_field probeFields (fun _ _ => rfl) (fun _ => rfl) received)

theorem SameProbe.unconfirmed (e : ErrorResult) : SameProbe e.rts (unconfirmed e) :=
  .of_fields (unconfirmed_field probeFields (fun _ => rfl) e)

theorem SameProbe.ended {s s' : PingState} {ending : Ending} (h : Ended s ending s') :
    SameProbe s.rts s'.rts :=
  .of_fields (h.field probeFields (fun _ => rfl) (fun _ => rfl) (fun _ => rfl))

theorem SameProbe.gathered (rts : PingRts) (reply : Reply) :
    SameProbe rts (gatherStatistics rts reply) :=
  .of_fields (gatherStatistics_field probeFields {} rts reply fun _ _ => rfl)

end Same

/-! ## What is sent -/

/-- The packet is the probe that the attempt `a` has built, from a state like `rts`. -/
structure Probed (family : Family) (rts : PingRts) (attempts : List Attempt) (a : Attempt)
    (packet : List UInt8) : Prop where
  mem : a ∈ attempts
  request : Request family rts (rts.ntransmitted + 1) a.now packet

theorem Probed.of_sendProbe {family : Family} {sock : SockType} {rts rts' : PingRts}
    {attempts : List Attempt} {a : Attempt} (ready : Ready family sock rts)
    (same : SameProbe rts rts') (number : rts'.ntransmitted = rts.ntransmitted)
    (mem : a ∈ attempts) : Probed family rts attempts a (family.sendProbe rts' a.now).2 := by
  obtain ⟨p, hbuilt, -, -, hpacket⟩ := sendProbe_echo (same.echoes ready.echoes) a.now
  have htimed : rts'.timing = true → 16 ≤ rts'.datalen := by
    rw [(same.ready ready).timing, decide_eq_true_eq]
    exact id
  refine ⟨mem, ?_⟩
  have hrequest := hbuilt.request (same.ready ready).small htimed
  rw [number] at hrequest
  rw [hpacket]
  exact same.request hrequest

/-- The packet that the kernel takes is the one of the last attempt. -/
theorem resend_probed {family : Family} {sock : SockType} {s : PingState}
    {attempts : List Attempt} {r : Pinged} (ready : Ready family sock s.rts)
    (h : resend family sock s attempts = some r) :
    SameProbe s.rts r.state.rts ∧ ∃ packet a, r.sends.getLast? = some packet ∧
      attempts[r.sends.length - 1]? = some a ∧ Probed family s.rts attempts a packet := by
  induction attempts generalizing s r with
  | nil => cases h
  | cons a rest ih =>
      have hsend := SameProbe.sendProbe ready.echoes a.now
      have hprobed := Probed.of_sendProbe ready (.refl s.rts) rfl
        (List.mem_cons_self : a ∈ a :: rest)
      have hfirst : ∀ {ended : Pinged}, SameProbe (family.sendProbe s.rts a.now).1 ended.state.rts →
          ended.sends = [(family.sendProbe s.rts a.now).2] →
          SameProbe s.rts ended.state.rts ∧ ∃ packet last, ended.sends.getLast? = some packet ∧
            (a :: rest)[ended.sends.length - 1]? = some last ∧
              Probed family s.rts (a :: rest) last packet := by
        intro ended hsame hsends
        refine ⟨hsend.trans hsame, _, a, ?_, ?_, hprobed⟩
        · rw [hsends, List.getLast?_singleton]
        · rw [hsends]
          rfl
      cases resend_step h with
      | sent => exact hfirst (.of_fields rfl) rfl
      | noBuffers => exact hfirst (.of_fields (queueFull_field probeFields (fun _ => rfl)
          (fun _ => rfl) _)) rfl
      | lingered => exact hfirst (.of_fields (queueFull_field probeFields (fun _ => rfl)
          (fun _ => rfl) _)) rfl
      | again => exact hfirst (.refl _) rfl
      | tooLong => exact hfirst (.of_fields rfl) rfl
      | reported _ received =>
          exact hfirst ((SameProbe.received received).trans (.of_fields rfl)) rfl
      | failed _ received =>
          exact hfirst ((SameProbe.received received).trans
            ((SameProbe.unconfirmed _).trans (.of_fields rfl))) rfl
      | @resent e ended _ received _ _ next =>
          have hsame := hsend.trans ((SameProbe.received received).trans (.unconfirmed _))
          obtain ⟨hended, packet, last, hlast, hattempt, hpacket⟩ := ih (hsame.ready ready) next
          have hnumber := (Attempted.sendProbe family s.rts a.now).receive received
            |>.unconfirmed.field (·.ntransmitted) {}
          obtain ⟨first, more, hsends⟩ : ∃ first more, ended.sends = first :: more := by
            apply List.exists_cons_of_ne_nil
            intro hnil
            rw [hnil] at hlast
            cases hlast
          refine ⟨hsame.trans hended, packet, last, ?_, ?_, List.mem_cons_of_mem a hpacket.mem, ?_⟩
          · rw [hsends] at hlast
            rw [hsends, List.getLast?_cons_cons, hlast]
          · rw [hsends] at hattempt
            rw [hsends]
            exact hattempt
          · have hrequest := hsame.request hpacket.request
            dsimp only at hrequest
            rwa [hnumber] at hrequest

/-- A packet on the wire. -/
structure Launched (family : Family) (rts : PingRts) (sent : Sent) : Prop where
  clock : OfClock sent.time
  request : Request family rts sent.number sent.time sent.packet

/-- What a call puts on the wire is its probe, and is counted as transmitted. -/
theorem launched_cases {family : Family} {sock : SockType} {s : PingState} {c : PingerCall}
    {r : Pinged} (ready : Ready family sock s.rts) (clocked : ∀ a ∈ c.attempts, OfClock a.now)
    (h : pinger family sock s c = some r) :
    SameProbe s.rts r.state.rts ∧
      (launched s c r = [] ∨ ∃ sent, launched s c r = [sent] ∧
        sent.number = s.rts.ntransmitted + 1 ∧ Launched family s.rts sent ∧
          r.state.rts.ntransmitted = s.rts.ntransmitted + 1) := by
  have hcounters := (pinger_counters h).2.1
  have hidle : ∀ wait, r = { state := s, ending := .idle, wait := wait } →
      SameProbe s.rts r.state.rts ∧ launched s c r = [] := by
    rintro wait rfl
    exact ⟨.refl s.rts, rfl⟩
  simp only [pinger] at h
  split at h
  · cases h
    obtain ⟨hsame, hnone⟩ := hidle _ rfl
    exact ⟨hsame, .inl hnone⟩
  split at h
  · cases h
    obtain ⟨hsame, hnone⟩ := hidle _ rfl
    exact ⟨hsame, .inl hnone⟩
  next tokens htokens =>
    obtain ⟨ended, hended, rfl⟩ := Option.map_eq_some_iff.mp h
    have hclock : SameProbe s.rts { s.rts with curTime := c.clock } := .of_fields rfl
    obtain ⟨hsame, packet, a, hlast, hattempt, hprobed⟩ := resend_probed
      (s := { s with rts := { s.rts with curTime := c.clock }, tokens := tokens })
      (hclock.ready ready) hended
    refine ⟨hclock.trans hsame, ?_⟩
    dsimp only [launched] at hcounters ⊢
    rw [hlast, hattempt]
    cases hending : ended.ending with
    | sent =>
        rw [hending] at hcounters
        exact .inr ⟨_, rfl, rfl, ⟨clocked a hprobed.mem, hclock.request hprobed.request⟩, hcounters⟩
    | _ => exact .inl rfl

/-! ## What is read -/

section Read

variable (family : Family) (sock : SockType) (m : Received) (buf : Buffer)

/-- The buffer from the ICMP header on. -/
def messageIn : Buffer := fun i => buf (headerLength family sock buf + i)

theorem messageIn_inet6 : messageIn .inet6 sock buf = buf := by
  funext i
  rw [messageIn, headerLength, if_neg (by rintro ⟨⟨⟩, -⟩), Nat.zero_add]

/-- The packet is read from the message, whatever is in front of it. -/
theorem packetOf_eq :
    (packetOf family sock m buf).icmp = messageIn family sock buf ∧
      (packetOf family sock m buf).type = messageIn family sock buf 0 ∧
      (packetOf family sock m buf).id = load16 (messageIn family sock buf) 4 ∧
      (packetOf family sock m buf).reply =
        loadReply (messageIn family sock buf) (m.cc - headerLength family sock buf)
          (family = .inet ∧ inCksum (memory (messageIn family sock buf) 0
            (m.cc - headerLength family sock buf : Int).toNat)
              (m.cc - headerLength family sock buf : Int).toNat 0 ≠ 0) m := by
  cases family with
  | inet =>
      cases sock with
      | raw =>
          refine ⟨rfl, rfl, rfl, ?_⟩
          simp only [true_and]
          rfl
      | dgram =>
          refine ⟨rfl, rfl, rfl, ?_⟩
          simp only [true_and]
          rfl
  | inet6 =>
      have hlength : headerLength .inet6 sock buf = 0 := if_neg (by rintro ⟨⟨⟩, -⟩)
      rw [messageIn_inet6, hlength]
      refine ⟨rfl, rfl, rfl, ?_⟩
      simp only [packetOf, packet6, reduceCtorEq, false_and, decide_false, Nat.cast_zero,
        Int.sub_zero]

end Read

/-- The reply to a probe, as it is handed to the statistics. -/
structure Replied (rts : PingRts) (sent : Sent) (m : Received) (reply : Reply) : Prop where
  cc : reply.cc = rts.datalen + 8
  seq : reply.seq = low16 sent.number
  csfailed : reply.csfailed = false
  tv : reply.tv = m.tv
  stamp : rts.timing = true → reply.stamp = sent.time

section Arrival

variable {family : Family} {sock : SockType} {rts : PingRts} {sent : Sent} {m : Received}
variable {buf : Buffer}

theorem memory_messageIn (start n : Nat) :
    memory (messageIn family sock buf) start n =
      memory buf (headerLength family sock buf + start) n :=
  List.map_congr_left fun i _ => congrArg buf (Nat.add_assoc _ start i).symm

/-- What comes back is what was sent, piece by piece. -/
theorem Arrives.data (arrives : Arrives family sock sent m buf) {a n : Nat} (behind : 6 ≤ a)
    (inside : a + n ≤ sent.packet.length) :
    memory (messageIn family sock buf) a n = (sent.packet.drop a).take n := by
  have hreply := arrives.answers.data
  rw [memory_messageIn, ← memory_middle buf inside]
  obtain ⟨k, rfl⟩ := Nat.exists_eq_add_of_le behind
  rw [← List.drop_drop, hreply, List.drop_drop]

theorem Arrives.replied (arrives : Arrives family sock sent m buf)
    (launched : Launched family rts sent) (ready : Ready family sock rts) :
    Replied rts sent m (packetOf family sock m buf).reply := by
  obtain ⟨-, -, -, hreply⟩ := packetOf_eq family sock m buf
  have hlength := launched.request.length
  have hcc : (m.cc - headerLength family sock buf : Int) = sent.packet.length := by
    rw [arrives.cc]
    omega
  rw [hreply, hcc, Int.toNat_natCast]
  constructor
  · change (sent.packet.length : Int) = _
    rw [hlength]
    rfl
  · refine ntohs_load16_be16 ?_
    rw [arrives.data (by decide) (by omega), launched.request.sequence]
  · refine decide_eq_false ?_
    rintro ⟨rfl, hbad⟩
    have hsum := arrives.answers.checksum rfl
    rw [length_memory] at hsum
    rw [memory_messageIn, Nat.add_zero] at hbad
    exact hbad hsum
  · rfl
  · intro htiming
    have htimed : 16 ≤ rts.datalen := by simpa [htiming] using ready.timing
    refine loadTimeval_bytes launched.clock.stored.sec launched.clock.stored.usec ?_
    rw [arrives.data (by decide) (by omega), launched.request.stamp htiming]

theorem Arrives.type (arrives : Arrives family sock sent m buf)
    (launched : Launched family rts sent) :
    (packetOf family sock m buf).type = replyType family := by
  obtain ⟨-, htype, -⟩ := packetOf_eq family sock m buf
  have hlength := launched.request.length
  have hfirst := arrives.answers.type
  rw [memory_take buf (by omega : 1 ≤ sent.packet.length)] at hfirst
  rw [htype]
  exact (List.cons_eq_cons.mp hfirst).1

theorem Arrives.isOurs (arrives : Arrives family sock sent m buf)
    (launched : Launched family rts sent) (ready : Ready family sock rts) :
    isOurs rts sock (packetOf family sock m buf).id = true := by
  obtain ⟨-, -, hid, -⟩ := packetOf_eq family sock m buf
  cases sock with
  | dgram => rfl
  | raw =>
      have hlength := launched.request.length
      obtain ⟨hlower, hupper⟩ := ready.ident rfl
      have hback := arrives.answers.id rfl
      rw [launched.request.id, memory_middle buf (by omega)] at hback
      have hload : load16 (messageIn family .raw buf) 4 = UInt16.ofInt rts.ident := by
        refine load16_le16 ?_
        rw [memory_messageIn, hback]
      rw [hid, hload, Coping.isOurs, Bool.or_eq_true, decide_eq_true_eq, decide_eq_true_eq]
      refine .inr ?_
      rw [UInt16.ofInt, UInt16.toNat_ofNat']
      omega

/-- No byte of the data is altered. -/
theorem Arrives.wrongByte (arrives : Arrives family sock sent m buf)
    (launched : Launched family rts sent) :
    wrongByte rts (packetOf family sock m buf).icmp = none := by
  obtain ⟨hicmp, -⟩ := packetOf_eq family sock m buf
  have hlength := launched.request.length
  rw [hicmp, Coping.wrongByte, List.find?_eq_none]
  intro i hi
  obtain ⟨hlower, hupper⟩ := List.mem_range'_1.mp hi
  have hback : some (messageIn family sock buf (8 + i)) = sent.packet[8 + i]? := by
    have hone := congrArg (·[0]?) (arrives.data (a := 8 + i) (n := 1) (by omega) (by omega))
    rwa [List.getElem?_take, if_pos Nat.zero_lt_one, List.getElem?_drop, Nat.add_zero] at hone
  have hkept : sent.packet[8 + i]? = rts.outpack.bytes[8 + i]? := by
    have hdata := congrArg (·[i - 16]?) launched.request.data
    rwa [List.getElem?_drop, slice_getElem?, if_pos (by omega),
      show 24 + (i - 16) = 8 + i by omega] at hdata
  rw [← hkept, ← hback, Option.getD_some, decide_eq_true_eq]
  exact not_not.mpr rfl

/-- The reply is taken for what it is, and entered into the statistics. -/
theorem Arrives.parsed (arrives : Arrives family sock sent m buf)
    (launched : Launched family rts sent) (ready : Ready family sock rts) (prAddr : PrAddr)
    (settings : Settings) (oldRr : List UInt8) :
    (family.parseReply prAddr settings sock rts oldRr (packetOf family sock m buf)).notOurs =
        false ∧
      (family.parseReply prAddr settings sock rts oldRr (packetOf family sock m buf)).rts =
        gatherStatistics rts (packetOf family sock m buf).reply := by
  have htype := arrives.type launched
  have hours := arrives.isOurs launched ready
  unfold replyType at htype
  obtain ⟨hcc, -, hgood, -⟩ := arrives.replied launched ready
  have hlong : ¬(packetOf family sock m buf).reply.cc < 8 := by omega
  cases family with
  | inet =>
      have hheader : ¬(sock = .raw ∧ ((packetOf .inet sock m buf).reply.cc < 8 ∨
          (packetOf .inet sock m buf).ihl < 5)) := by
        rintro ⟨hraw, hshort | hihl⟩
        · exact hlong hshort
        · exact absurd (arrives.header rfl hraw) (Nat.not_le.mpr hihl)
      rw [Family.parseReply, ping4ParseReply, if_neg hheader, if_pos htype,
        if_neg (not_not.mpr hours)]
      exact ⟨rfl, rfl⟩
  | inet6 =>
      have hcounted : (packetOf .inet6 sock m buf).counted.reply =
          (packetOf .inet6 sock m buf).reply := by
        rw [Packet.counted, if_pos htype, goodReply, ← hgood]
      rw [Family.parseReply, ping6ParseReply, if_neg hlong, if_pos htype,
        if_neg (not_not.mpr hours)]
      exact ⟨rfl, congrArg (gatherStatistics rts) hcounted⟩

end Arrival

/-! ## Runs -/

/-- The program can still tell what is on the wire, and nothing there is from the future. -/
structure Kept (family : Family) (rts : PingRts) (s : Net) : Prop where
  same : SameProbe rts s.loop.ping.rts
  wire : ∀ sent ∈ s.wire, Launched family rts sent ∧ 0 < sent.number ∧
    sent.number ≤ s.loop.ping.rts.ntransmitted

/-- The event of `main_loop` that is behind one of the system. -/
def Stands (rts : PingRts) : Event → LoopEvent → Prop
  | .call c, .call c' => c' = c
  | .error errno queue, .error errno' queue' => errno' = errno ∧ queue' = queue
  | .deliver sent m _, .reply r => Replied rts sent m r
  | _, _ => False

/-- A delivered answer is taken for a reply, complete and unaltered. -/
def Recognised (family : Family) (sock : SockType) (prAddr : PrAddr) (settings : Settings)
    (s : Net) : Event → Prop
  | .deliver _ m buf =>
      (family.parseReply prAddr settings sock s.loop.ping.rts s.oldRr
        (packetOf family sock m buf)).notOurs = false ∧
      (packetOf family sock m buf).reply.csfailed = false ∧
      s.loop.ping.rts.datalen + 8 ≤ (packetOf family sock m buf).reply.cc ∧
      wrongByte s.loop.ping.rts (packetOf family sock m buf).icmp = none
  | _ => True

section Runs

variable {family : Family} {sock : SockType} {prAddr : PrAddr} {settings : Settings}
variable {rts : PingRts} {s t : Net} {e : Event}

theorem net_call {c : PingerCall}
    (step : (net family sock prAddr settings).step s (.call c) = some t) :
    ∃ r, pinger family sock s.loop.ping c = some r ∧ t.loop.ping.rts = r.state.rts ∧
      t.delivered = s.delivered ∧ t.wire = s.wire ++ launched s.loop.ping c r ∧
        (mainLoop family sock).step s.loop (.call c) = some t.loop := by
  obtain ⟨r, hr, hstep⟩ := Option.bind_eq_some_iff.mp step
  obtain ⟨loop, hloop, rfl⟩ := Option.map_eq_some_iff.mp hstep
  obtain ⟨pass, hpass, hstate⟩ := Option.map_eq_some_iff.mp hloop
  obtain ⟨r', hr', rfl⟩ := Option.map_eq_some_iff.mp hpass
  cases hr.symm.trans hr'
  exact ⟨r, hr, by rw [← hstate], rfl, rfl, hloop⟩

theorem net_error {errno : Int} {queue : ErrorQueue}
    (step : (net family sock prAddr settings).step s (.error errno queue) = some t) :
    ∃ r, family.receiveErrorMsg s.loop.ping.rts sock errno queue = some r ∧
      t.loop.ping.rts = r.rts ∧ t.delivered = s.delivered ∧ t.wire = s.wire ∧
        (mainLoop family sock).step s.loop (.error errno queue) = some t.loop := by
  obtain ⟨loop, hloop, rfl⟩ := Option.map_eq_some_iff.mp step
  obtain ⟨r, hr, hstate⟩ := Option.map_eq_some_iff.mp hloop
  exact ⟨r, hr, by rw [← hstate], rfl, rfl, hloop⟩

theorem Kept.launched (h : Kept family rts s) {sent : Sent} (mem : sent ∈ s.wire) :
    Launched family s.loop.ping.rts sent := by
  obtain ⟨⟨hclock, hrequest⟩, -⟩ := h.wire sent mem
  exact ⟨hclock, h.same.symm.request hrequest⟩

theorem Kept.delivered (h : Kept family rts s) (ready : Ready family sock rts) {sent : Sent}
    {m : Received} {buf : Buffer} (faithful : Faithful family sock s (.deliver sent m buf))
    (step : (net family sock prAddr settings).step s (.deliver sent m buf) = some t) :
    ∃ reply, Replied s.loop.ping.rts sent m reply ∧
      t.loop.ping.rts = gatherStatistics s.loop.ping.rts reply ∧
        t.delivered = (sent, m.tv) :: s.delivered ∧ t.wire = s.wire ∧
          (mainLoop family sock).step s.loop (.reply reply) = some t.loop := by
  obtain ⟨hmem, harrives⟩ := faithful
  have hlaunched := h.launched hmem
  have hready := h.same.ready ready
  obtain ⟨-, hparsed⟩ := harrives.parsed hlaunched hready prAddr settings s.oldRr
  cases step
  refine ⟨_, harrives.replied hlaunched hready, hparsed, rfl, rfl, ?_⟩
  change some _ = some _
  rw [hparsed]

theorem Kept.recognised (h : Kept family rts s) (ready : Ready family sock rts)
    (faithful : Faithful family sock s e) : Recognised family sock prAddr settings s e := by
  cases e with
  | call => trivial
  | error => trivial
  | deliver sent m buf =>
      obtain ⟨hmem, harrives⟩ := faithful
      have hlaunched := h.launched hmem
      have hready := h.same.ready ready
      have hreplied := harrives.replied hlaunched hready
      exact ⟨(harrives.parsed hlaunched hready prAddr settings s.oldRr).1, hreplied.csfailed,
        hreplied.cc.ge, harrives.wrongByte hlaunched⟩

/-- A step of the system is one of `main_loop`. -/
theorem Kept.step (h : Kept family rts s) (ready : Ready family sock rts)
    (faithful : Faithful family sock s e)
    (step : (net family sock prAddr settings).step s e = some t) :
    Kept family rts t ∧
      ∃ l, Stands rts e l ∧ (mainLoop family sock).step s.loop l = some t.loop := by
  cases e with
  | call c =>
      obtain ⟨r, hr, hrts, -, hwire, hloop⟩ := net_call step
      have hcounters := (pinger_counters hr).2.1
      obtain ⟨hsame, hlaunched⟩ := launched_cases (h.same.ready ready) faithful hr
      refine ⟨⟨?_, ?_⟩, .call c, rfl, hloop⟩
      · rw [hrts]
        exact h.same.trans hsame
      · intro sent hsent
        rw [hwire] at hsent
        rw [hrts]
        obtain hold | hnew := List.mem_append.mp hsent
        · obtain ⟨hold, hpositive, hle⟩ := h.wire sent hold
          exact ⟨hold, hpositive, by omega⟩
        · obtain hnone | ⟨sent', hone, hnumber, hfirst, hadvanced⟩ := hlaunched
          · rw [hnone] at hnew
            cases hnew
          · rw [hone] at hnew
            cases List.mem_singleton.mp hnew
            exact ⟨⟨hfirst.clock, h.same.request hfirst.request⟩, by omega, by omega⟩
  | error errno queue =>
      obtain ⟨r, hr, hrts, -, hwire, hloop⟩ := net_error step
      have hnumber : r.rts.ntransmitted = s.loop.ping.rts.ntransmitted :=
        Family.receiveErrorMsg_field (·.ntransmitted) (fun _ _ => rfl) (fun _ => rfl) hr
      refine ⟨⟨?_, ?_⟩, .error errno queue, ⟨rfl, rfl⟩, hloop⟩
      · rw [hrts]
        exact h.same.trans (.received hr)
      · rw [hwire, hrts, hnumber]
        exact h.wire
  | deliver sent m buf =>
      obtain ⟨reply, hreplied, hrts, -, hwire, hloop⟩ := h.delivered ready faithful step
      refine ⟨⟨?_, ?_⟩, .reply reply, ?_, hloop⟩
      · rw [hrts]
        exact h.same.trans (.gathered _ _)
      · rw [hwire, hrts, gatherStatistics_ntransmitted]
        exact h.wire
      · exact ⟨hreplied.cc.trans (congrArg (fun n : Nat => (n : Int) + 8) h.same.datalen),
          hreplied.seq, hreplied.csfailed, hreplied.tv, h.same.timing ▸ hreplied.stamp⟩

/-- Before anything is sent. -/
theorem Kept.start (family : Family) (loop : LoopState) (oldRr : List UInt8) :
    Kept family loop.ping.rts { loop := loop, oldRr := oldRr } :=
  ⟨.refl _, fun _ hsent => absurd hsent List.not_mem_nil⟩

end Runs

/-! ## A host that answers -/

/-- The echo reply to a packet. Where the kernel fills in the checksum, it is left out. -/
def respond (family : Family) (request : List UInt8) : List UInt8 :=
  let bare := [replyType family, 0] ++ [0, 0] ++ request.drop 4
  match family with
  | .inet => [replyType family, 0] ++ le16 (inCksum bare bare.length 0) ++ request.drop 4
  | .inet6 => bare

theorem answers_respond (family : Family) (sock : SockType) {request : List UInt8}
    (long : 8 ≤ request.length) (small : request.length ≤ MAXPACKET) :
    Answers family sock request (respond family request) := by
  obtain ⟨field, hfield, hrespond⟩ : ∃ field : List UInt8, field.length = 2 ∧
      respond family request = [replyType family, 0] ++ field ++ request.drop 4 := by
    cases family with
    | inet => exact ⟨_, Checksum.le16_length _, rfl⟩
    | inet6 => exact ⟨[0, 0], rfl, rfl⟩
  have hfront : ([replyType family, 0] ++ field).length = 4 := by
    rw [List.length_append, hfield]
    rfl
  have hrest : ∀ k, ([replyType family, 0] ++ field ++ request.drop 4).drop (4 + k) =
      request.drop (4 + k) := by
    intro k
    rw [← List.drop_drop, List.drop_left' hfront, List.drop_drop]
  constructor
  · rw [hrespond, List.length_append, hfront, List.length_drop]
    omega
  · rw [hrespond]
    rfl
  · intro _
    rw [hrespond, hrest 0]
  · rw [hrespond, hrest 2]
  · rintro rfl
    refine @Checksum.inCksum_verifies _ (request.drop 4) ⟨1, rfl⟩ ?_ _ _ rfl rfl
    rw [List.length_append, List.length_drop]
    change 4 + _ ≤ _
    omega

/-! ## One round trip -/

section Once

def onceOptions : PingRts := { timing := true, ident := 7 }

def onceClock : Timespec := { tvSec := 1 }

def onceTime : Timeval := { tvSec := 1700000000 }

def onceCall : PingerCall where
  clock := onceClock
  attempts := [{ now := onceTime, ret := 0 }]

def onceSent : Sent where
  number := 1
  packet := (Family.inet.sendProbe { onceOptions.start with curTime := onceClock } onceTime).2
  time := onceTime

/-- The answer behind an IP header without options. -/
def onceBytes : List UInt8 := 0x45 :: List.replicate 19 0 ++ respond .inet onceSent.packet

def onceBuffer : Buffer := fun i => (onceBytes[i]?).getD 0

/-- It takes 25 ms. -/
def onceReceived : Received where
  cc := 84
  host := ⟨.empty, .empty⟩
  tv := { tvSec := 1700000000, tvUsec := 25000 }

/-- No address has a name. -/
def onceAddr : PrAddr := fun _ => ⟨.empty, .empty⟩

def onceEvents : List Event := [.call onceCall, .deliver onceSent onceReceived onceBuffer]

theorem onceOptions_ready : Ready .inet .raw onceOptions :=
  ⟨by decide, rfl, .inl rfl, fun _ => ⟨by decide, by decide⟩⟩

theorem onceSent_length : onceSent.packet.length = 64 :=
  ping4SendProbe_length { onceOptions.start with curTime := onceClock } onceTime (by decide)

theorem launched_once {r : Pinged}
    (h : pinger .inet .raw { rts := onceOptions.start } onceCall = some r) :
    launched { rts := onceOptions.start } onceCall r = [onceSent] ∧
      r.state.rts.ntransmitted = 1 := by
  rw [@pinger_of_send .inet .raw { rts := onceOptions.start } onceCall 0 rfl rfl rfl,
    onceCall, resend, if_pos (.inl rfl), Option.map_some] at h
  cases h
  exact ⟨rfl, rfl⟩

theorem arrives_once : Arrives .inet .raw onceSent onceReceived onceBuffer := by
  have hheader : loadIhl onceBuffer 0 = 5 := rfl
  have hlength : headerLength .inet .raw onceBuffer = 20 := rfl
  have hanswers : Answers .inet .raw onceSent.packet (respond .inet onceSent.packet) :=
    answers_respond .inet .raw (by rw [onceSent_length]; decide) (by rw [onceSent_length]; decide)
  have hmemory : memory onceBuffer 20 onceSent.packet.length = respond .inet onceSent.packet := by
    have hwhole : onceBytes.length = 20 + onceSent.packet.length := by
      rw [onceBytes, List.length_append, hanswers.length]
      rfl
    change memory (fun i => (onceBytes[i]?).getD 0) 20 onceSent.packet.length = _
    have hfront : (0x45 :: List.replicate 19 0 : List UInt8).length = 20 := rfl
    rw [memory_getD (by omega), onceBytes, List.drop_left' hfront, ← hanswers.length,
      List.take_length]
  refine ⟨fun _ _ => hheader.ge, ?_, ?_⟩
  · rw [hlength, onceSent_length]
    rfl
  · rw [hlength, hmemory]
    exact hanswers

theorem once_guarded {G : Net → Event → Prop} {s : Net}
    (start : s.loop.ping = { rts := onceOptions.start }) (empty : s.wire = [])
    (call : G s (.call onceCall))
    (deliver : ∀ t : Net, t.wire = [onceSent] → t.loop.ping.rts.ntransmitted = 1 →
      G t (.deliver onceSent onceReceived onceBuffer)) :
    (net .inet .raw onceAddr {}).Guarded G s onceEvents := by
  refine ⟨call, fun t ht => ⟨?_, fun _ _ => trivial⟩⟩
  obtain ⟨r, hr, hrts, -, hwire, -⟩ := net_call ht
  rw [start] at hr hwire
  obtain ⟨hlaunched, hnumber⟩ := launched_once hr
  apply deliver t
  · rw [hwire, empty, hlaunched, List.nil_append]
  · rw [hrts, hnumber]

theorem once_faithful {s : Net} (start : s.loop.ping = { rts := onceOptions.start })
    (empty : s.wire = []) :
    (net .inet .raw onceAddr {}).Guarded (Faithful .inet .raw) s onceEvents := by
  apply once_guarded start empty
  · intro a ha
    cases List.mem_singleton.mp ha
    exact ⟨⟨by decide, by decide⟩, by decide, by decide⟩
  · intro t hwire _
    exact ⟨hwire ▸ List.mem_singleton_self _, arrives_once⟩

/-- Before the probe is sent. -/
def onceNet : Net where
  loop := { ping := { rts := onceOptions.start } }
  oldRr := []

end Once

/-- On a wire that answers with what was sent, in any order and any number of times, every answer
is recognised, and what `main_loop` goes through is a run on replies to its own probes. -/
theorem exchange_refines (family : Family) (sock : SockType) (prAddr : PrAddr)
    (settings : Settings) (loop : LoopState) (oldRr : List UInt8) (es : List Event)
    (ready : Ready family sock loop.ping.rts)
    (faithful : (net family sock prAddr settings).Guarded (Faithful family sock)
      { loop := loop, oldRr := oldRr } es) :
    (net family sock prAddr settings).Guarded (Recognised family sock prAddr settings)
        { loop := loop, oldRr := oldRr } es ∧
      ∀ t, (net family sock prAddr settings).final { loop := loop, oldRr := oldRr } es = some t →
        ∃ ls, List.Forall₂ (Stands loop.ping.rts) es ls ∧
          (mainLoop family sock).final loop ls = some t.loop := by
  have hstart := Kept.start family loop oldRr
  constructor
  · exact Machine.Guarded.of_invariant hstart (fun s e t hs he hstep => (hs.step ready he hstep).1)
      (fun s e hs he => hs.recognised ready he) faithful
  · intro t run
    obtain ⟨ls, last, hls, hrun, -, rfl⟩ := Machine.final_simulated
      (R := fun s loop => Kept family _ s ∧ loop = s.loop) ⟨hstart, rfl⟩
      (by
        rintro s _ e t ⟨hs, rfl⟩ he hstep
        obtain ⟨hnext, l, hl, hloop⟩ := hs.step ready he hstep
        exact ⟨l, t.loop, hl, hloop, hnext, rfl⟩) faithful run
    exact ⟨ls, hls, hrun⟩

theorem exchange_refines_once :
    (net .inet .raw onceAddr {}).Guarded (Recognised .inet .raw onceAddr {}) onceNet onceEvents ∧
      ∀ t, (net .inet .raw onceAddr {}).final onceNet onceEvents = some t →
        ∃ ls, List.Forall₂ (Stands onceOptions.start) onceEvents ls ∧
          (mainLoop .inet .raw).final onceNet.loop ls = some t.loop :=
  exchange_refines .inet .raw onceAddr {} onceNet.loop [] onceEvents onceOptions_ready.start
    (once_faithful rfl rfl)

/-! ## What is counted -/

/-- The numbers of the probes that were answered, an answer for each. -/
def answered (s : Net) : List Nat := s.delivered.map (·.1.number)

/-- The number of the probe is in use, and not for a later one. -/
def Recent (s : Net) : Event → Prop
  | .deliver sent _ _ => s.loop.ping.rts.ntransmitted + 1 < sent.number + MAX_DUP_CHK
  | _ => True

/-- First answers are received, others are duplicates, and no probe is received that was not
sent. -/
structure Counted (s : Net) : Prop where
  nreceived : s.loop.ping.rts.nreceived = (answered s).toFinset.card
  total : s.loop.ping.rts.nreceived + s.loop.ping.rts.nrepeats = s.delivered.length
  nchecksum : s.loop.ping.rts.nchecksum = 0
  sent : s.loop.ping.rts.nreceived ≤ s.loop.ping.rts.ntransmitted

/-- The marks are about the probes whose number is in use. -/
structure Marked (s : Net) : Prop where
  numbers : ∀ n ∈ answered s, 0 < n ∧ n ≤ s.loop.ping.rts.ntransmitted
  mark : ∀ n, 0 < n → n ≤ s.loop.ping.rts.ntransmitted →
    s.loop.ping.rts.ntransmitted + 1 < n + MAX_DUP_CHK →
      (marked s.loop.ping.rts (low16 n) = true ↔ n ∈ answered s)
  nreceived : s.loop.ping.rts.nreceived = (answered s).toFinset.card
  total : s.loop.ping.rts.nreceived + s.loop.ping.rts.nrepeats = s.delivered.length
  nchecksum : s.loop.ping.rts.nchecksum = 0

theorem Marked.counted {s : Net} (h : Marked s) : Counted s where
  nreceived := h.nreceived
  total := h.total
  nchecksum := h.nchecksum
  sent := by
    have hsubset : (answered s).toFinset ⊆ Finset.Icc 1 s.loop.ping.rts.ntransmitted := by
      intro n hn
      exact Finset.mem_Icc.mpr (h.numbers n (List.mem_toFinset.mp hn))
    have hcard := Finset.card_le_card hsubset
    rw [Nat.card_Icc] at hcard
    rw [h.nreceived]
    omega

theorem Marked.start (options : PingRts) (oldRr : List UInt8) :
    Marked { loop := { ping := { rts := options.start } }, oldRr := oldRr } where
  numbers _ hn := absurd hn List.not_mem_nil
  mark n positive le := absurd le (by change ¬n ≤ 0; omega)
  nreceived := rfl
  total := rfl
  nchecksum := rfl

/-- A step that receives nothing keeps the marks of the numbers that were in use. -/
theorem Marked.keep {s t : Net} (h : Marked s) (delivered : t.delivered = s.delivered)
    (nreceived : t.loop.ping.rts.nreceived = s.loop.ping.rts.nreceived)
    (nrepeats : t.loop.ping.rts.nrepeats = s.loop.ping.rts.nrepeats)
    (nchecksum : t.loop.ping.rts.nchecksum = s.loop.ping.rts.nchecksum)
    (ntransmitted : s.loop.ping.rts.ntransmitted ≤ t.loop.ping.rts.ntransmitted)
    (marks : ∀ n, 0 < n → n ≤ t.loop.ping.rts.ntransmitted →
      t.loop.ping.rts.ntransmitted + 1 < n + MAX_DUP_CHK →
        marked t.loop.ping.rts (low16 n) =
          (decide (n ≤ s.loop.ping.rts.ntransmitted) && marked s.loop.ping.rts (low16 n))) :
    Marked t := by
  have hanswered : answered t = answered s := by rw [answered, answered, delivered]
  constructor
  · intro n hn
    rw [hanswered] at hn
    exact ⟨(h.numbers n hn).1, (h.numbers n hn).2.trans ntransmitted⟩
  · intro n positive le recent
    rw [marks n positive le recent, hanswered, Bool.and_eq_true, decide_eq_true_eq]
    constructor
    · rintro ⟨hold, hmark⟩
      exact (h.mark n positive hold (by omega)).mp hmark
    · intro hn
      have hold := (h.numbers n hn).2
      exact ⟨hold, (h.mark n positive hold (by omega)).mpr hn⟩
  · rw [nreceived, hanswered, h.nreceived]
  · rw [nreceived, nrepeats, delivered, h.total]
  · rw [nchecksum, h.nchecksum]

section Counting

variable {family : Family} {sock : SockType} {prAddr : PrAddr} {settings : Settings}
variable {rts : PingRts} {s t : Net} {e : Event}

theorem Marked.call (h : Marked s) {c : PingerCall}
    (step : (net family sock prAddr settings).step s (.call c) = some t) : Marked t := by
  obtain ⟨r, hr, hrts, hdelivered, -⟩ := net_call step
  obtain ⟨hreceived, hnumber, hmarks⟩ := pinger_counters hr
  apply h.keep hdelivered <;> rw [hrts]
  · exact hreceived
  · exact pinger_field (·.nrepeats) {} hr
  · exact pinger_field (·.nchecksum) {} hr
  · omega
  · intro n positive le recent
    rw [hmarks]
    congr 1
    have hadvance : r.ending.advances.toNat ≤ 1 := Bool.toNat_le _
    by_cases hidle : r.ending = .idle
    · rw [hidle] at hnumber
      rw [hnumber] at le
      have hold : n ≤ s.loop.ping.rts.ntransmitted := le
      rw [decide_eq_true hidle, decide_eq_true hold, Bool.true_or]
    · rw [decide_eq_false hidle, Bool.false_or, ← decide_not]
      refine decide_eq_decide.mpr ?_
      simp only [MAX_DUP_CHK] at recent
      rw [low16_eq_iff]
      omega

theorem Marked.error (h : Marked s) {errno : Int} {queue : ErrorQueue}
    (step : (net family sock prAddr settings).step s (.error errno queue) = some t) :
    Marked t := by
  obtain ⟨r, hr, hrts, hdelivered, -⟩ := net_error step
  have hsame : ∀ {α : Type} (field : PingRts → α),
      (∀ rts seq, field (acknowledge rts seq) = field rts) →
        (∀ rts, field (countError rts) = field rts) → field r.rts = field s.loop.ping.rts :=
    fun field acknowledged counted => Family.receiveErrorMsg_field field acknowledged counted hr
  have hnumber := hsame (·.ntransmitted) (fun _ _ => rfl) (fun _ => rfl)
  apply h.keep hdelivered <;> rw [hrts]
  · exact hsame (·.nreceived) (fun _ _ => rfl) (fun _ => rfl)
  · exact hsame (·.nrepeats) (fun _ _ => rfl) (fun _ => rfl)
  · exact hsame (·.nchecksum) (fun _ _ => rfl) (fun _ => rfl)
  · exact hnumber.ge
  · intro n positive le recent
    rw [decide_eq_true (hnumber ▸ le), Bool.true_and]
    exact hsame (marked · (low16 n)) (fun _ _ => rfl) (fun _ => rfl)

/-- The number of an answer is marked, and that of no other probe. -/
theorem Marked.deliver (h : Marked s) {sent : Sent} {m : Received} {buf : Buffer}
    (kept : Kept family rts s) (ready : Ready family sock rts)
    (faithful : Faithful family sock s (.deliver sent m buf))
    (recent : Recent s (.deliver sent m buf))
    (step : (net family sock prAddr settings).step s (.deliver sent m buf) = some t) :
    Marked t := by
  obtain ⟨-, hpositive, hle⟩ := kept.wire sent faithful.1
  obtain ⟨reply, ⟨-, hseq, hgood, -⟩, hrts, hdelivered, -⟩ := kept.delivered ready faithful step
  have hold := h.mark sent.number hpositive hle recent
  have hnumber := gatherStatistics_ntransmitted s.loop.ping.rts reply
  have hanswered : answered t = sent.number :: answered s := by
    rw [answered, hdelivered]
    rfl
  constructor <;> rw [hrts]
  · rw [hanswered, hnumber]
    exact List.forall_mem_cons.mpr ⟨⟨hpositive, hle⟩, h.numbers⟩
  · intro n positive le window
    rw [hnumber] at le window
    have hsame : low16 n = low16 sent.number ↔ n = sent.number := by
      simp only [MAX_DUP_CHK] at window
      simp only [Recent, MAX_DUP_CHK] at recent
      rw [low16_eq_iff]
      omega
    rw [marked_gatherStatistics, hgood, hseq, Bool.not_false, Bool.true_and, Bool.or_eq_true,
      decide_eq_true_eq, hsame, h.mark n positive le window, hanswered, List.mem_cons, or_comm]
  · rw [gatherStatistics_nreceived, hgood, hseq, h.nreceived, hanswered, List.toFinset_cons]
    cases hmark : marked s.loop.ping.rts (low16 sent.number) with
    | true =>
        rw [Finset.insert_eq_of_mem (List.mem_toFinset.mpr (hold.mp hmark))]
        rfl
    | false =>
        have hfresh : sent.number ∉ (answered s).toFinset := by
          rw [List.mem_toFinset, ← hold, hmark]
          exact Bool.false_ne_true
        rw [Finset.card_insert_of_notMem hfresh]
        rfl
  · rw [gatherStatistics_replies, hgood, h.total, hdelivered]
    rfl
  · rw [gatherStatistics_nchecksum, hgood, h.nchecksum]
    rfl

theorem Marked.step (h : Marked s) (kept : Kept family rts s) (ready : Ready family sock rts)
    (faithful : Faithful family sock s e) (recent : Recent s e)
    (step : (net family sock prAddr settings).step s e = some t) : Marked t := by
  cases e with
  | call => exact h.call step
  | error => exact h.error step
  | deliver => exact h.deliver kept ready faithful recent step

end Counting

/-- In every run of the system in which no answer is older than 65534 probes, the counters are
those of the answers themselves. -/
theorem exchange_counted (family : Family) (sock : SockType) (prAddr : PrAddr)
    (settings : Settings) (options : PingRts) (oldRr : List UInt8) (es : List Event)
    (ready : Ready family sock options)
    (faithful : (net family sock prAddr settings).Guarded (Faithful family sock)
      { loop := { ping := { rts := options.start } }, oldRr := oldRr } es)
    (recent : (net family sock prAddr settings).Guarded Recent
      { loop := { ping := { rts := options.start } }, oldRr := oldRr } es) :
    (net family sock prAddr settings).Always Counted
      { loop := { ping := { rts := options.start } }, oldRr := oldRr } es := by
  have hboth : (net family sock prAddr settings).Always
      (fun s => Kept family options.start s ∧ Marked s)
      { loop := { ping := { rts := options.start } }, oldRr := oldRr } es := by
    have hstart := Kept.start family { ping := { rts := options.start } } oldRr
    refine Machine.Always.of_invariant ⟨hstart, Marked.start options oldRr⟩ ?_
      (faithful.and recent)
    rintro s e t ⟨hkept, hmarked⟩ ⟨hfaithful, hrecent⟩ hstep
    exact ⟨(hkept.step ready.start hfaithful hstep).1,
      hmarked.step hkept ready.start hfaithful hrecent hstep⟩
  exact hboth.mono fun s hs => hs.2.counted

theorem exchange_counted_once : (net .inet .raw onceAddr {}).Always Counted onceNet onceEvents :=
  exchange_counted .inet .raw onceAddr {} onceOptions [] onceEvents onceOptions_ready
    (once_faithful rfl rfl)
    (once_guarded rfl rfl trivial fun t _ hnumber => by
      change t.loop.ping.rts.ntransmitted + 1 < 1 + 65536
      rw [hnumber]
      decide)

/-! ## What is measured -/

/-- The answer is received behind its probe on a clock that is not set back, and no later than
2147.999999 seconds after it. -/
structure Prompt (sent : Sent) (m : Received) : Prop where
  clock : OfClock m.tv
  after : 0 ≤ micros m.tv - micros sent.time
  prompt : micros m.tv - micros sent.time ≤ 2147999999

/-- Every answer is. -/
def Timely (_ : Net) : Event → Prop
  | .deliver sent m _ => Prompt sent m
  | _ => True

/-- The round-trip times, in microseconds. -/
def roundTrips (s : Net) : List Int := s.delivered.map fun d => micros d.2 - micros d.1.time

/-- Their squares. -/
def squares (s : Net) : List Int := (roundTrips s).map fun time => time * time

/-- The statistics are those of the round-trip times. The sums are doubles, and are stated for as
long as a double holds every integer up to them. -/
structure Timed (s : Net) : Prop where
  tmin : s.loop.ping.rts.tmin = (roundTrips s).foldr min longMax
  tmax : s.loop.ping.rts.tmax = (roundTrips s).foldr max 0
  tsum : (roundTrips s).sum < 2 ^ 53 → s.loop.ping.rts.tsum = (roundTrips s).sum
  tsum2 : (squares s).sum < 2 ^ 53 → s.loop.ping.rts.tsum2 = (squares s).sum

/-- The integers that stand for the sums are not rounded at all. -/
structure Unrounded (s : Net) : Prop where
  tmin : s.loop.ping.rts.tmin = (roundTrips s).foldr min longMax
  tmax : s.loop.ping.rts.tmax = (roundTrips s).foldr max 0
  tsum : s.loop.ping.rts.tsum = (roundTrips s).sum
  tsum2 : s.loop.ping.rts.tsum2 = (squares s).sum

theorem Unrounded.timed {s : Net} (h : Unrounded s) : Timed s :=
  ⟨h.tmin, h.tmax, fun _ => h.tsum, fun _ => h.tsum2⟩

/-- The fields that the times are entered into. -/
def totals (rts : PingRts) : (Int × Int × Int) × Int := (times rts, rts.tsum2)

section Timing

variable {family : Family} {sock : SockType} {prAddr : PrAddr} {settings : Settings}
variable {rts : PingRts} {s t : Net} {e : Event}

theorem near_of_after {tv stamp : Timeval} (received : OfClock tv) (sent : OfClock stamp)
    (after : 0 ≤ micros tv - micros stamp) (prompt : micros tv - micros stamp ≤ 2147999999) :
    Near tv stamp := by
  obtain ⟨⟨hsec, -⟩, husec, husec'⟩ := received
  obtain ⟨⟨hsent, -⟩, hsentUsec, hsentUsec'⟩ := sent
  simp only [micros] at after prompt
  simp only [InLong, longMax] at hsec hsent
  have hborrow : borrow tv stamp = 1 ∧ tv.tvUsec < stamp.tvUsec ∨
      borrow tv stamp = 0 ∧ ¬tv.tvUsec < stamp.tvUsec := by
    rw [borrow]
    split <;> simp_all
  constructor <;> simp only [InLong, longMax] <;> omega

theorem Replied.measured {sent : Sent} {m : Received} {reply : Reply}
    (replied : Replied rts sent m reply) (sentAt : OfClock sent.time) (prompt : Prompt sent m)
    (timing : rts.timing = true) (timed : 16 ≤ rts.datalen) :
    measured rts reply = some (micros m.tv - micros sent.time) := by
  have hlong : reply.cc ≥ TIMED_LEN := by
    rw [replied.cc, TIMED_LEN]
    omega
  rw [Coping.measured, if_pos ⟨timing, hlong, replied.csfailed⟩, triptime, replied.tv,
    replied.stamp timing,
    elapsed_exact (near_of_after prompt.clock sentAt prompt.after prompt.prompt)
      prompt.clock.normalised sentAt.normalised prompt.after prompt.prompt]

theorem Unrounded.keep (h : Unrounded s) (delivered : t.delivered = s.delivered)
    (same : totals t.loop.ping.rts = totals s.loop.ping.rts) : Unrounded t := by
  have htrips : roundTrips t = roundTrips s := by rw [roundTrips, roundTrips, delivered]
  have hsquares : squares t = squares s := by rw [squares, squares, htrips]
  obtain ⟨htimes, htsum2⟩ := Prod.ext_iff.mp same
  obtain ⟨htmin, hrest⟩ := Prod.ext_iff.mp htimes
  obtain ⟨htmax, htsum⟩ := Prod.ext_iff.mp hrest
  exact ⟨htrips ▸ htmin.trans h.tmin, htrips ▸ htmax.trans h.tmax, htrips ▸ htsum.trans h.tsum,
    hsquares ▸ htsum2.trans h.tsum2⟩

theorem Unrounded.step (h : Unrounded s) (kept : Kept family rts s) (ready : Ready family sock rts)
    (timed : 16 ≤ rts.datalen) (faithful : Faithful family sock s e) (timely : Timely s e)
    (step : (net family sock prAddr settings).step s e = some t) : Unrounded t := by
  cases e with
  | call c =>
      obtain ⟨r, hr, hrts, hdelivered, -⟩ := net_call step
      refine h.keep hdelivered ?_
      rw [hrts]
      exact pinger_field totals {} hr
  | error errno queue =>
      obtain ⟨r, hr, hrts, hdelivered, -⟩ := net_error step
      refine h.keep hdelivered ?_
      rw [hrts]
      exact Family.receiveErrorMsg_field totals (fun _ _ => rfl) (fun _ => rfl) hr
  | deliver sent m buf =>
      obtain ⟨reply, hreplied, hrts, hdelivered, -⟩ := kept.delivered ready faithful step
      have hready := kept.same.ready ready
      have htimed : 16 ≤ s.loop.ping.rts.datalen := kept.same.datalen ▸ timed
      have hmeasured := hreplied.measured (kept.launched faithful.1).clock timely
        (hready.timing.trans (decide_eq_true htimed)) htimed
      obtain ⟨hmin, hmax, hsum⟩ := times_eq.mp (times_gatherStatistics s.loop.ping.rts reply)
      have hsum2 := gatherStatistics_tsum2 s.loop.ping.rts reply
      rw [hmeasured] at hmin hmax hsum hsum2
      have htrips : roundTrips t = (micros m.tv - micros sent.time) :: roundTrips s := by
        rw [roundTrips, hdelivered]
        rfl
      have hsquares : squares t =
          (micros m.tv - micros sent.time) * (micros m.tv - micros sent.time) :: squares s := by
        rw [squares, htrips, List.map_cons, ← squares]
      constructor
      · rw [hrts, htrips, hmin, List.foldr_cons, ← h.tmin]
        exact min_comm _ _
      · rw [hrts, htrips, hmax, List.foldr_cons, ← h.tmax]
        exact max_comm _ _
      · rw [hrts, htrips, hsum, List.sum_cons, ← h.tsum]
        exact Int.add_comm _ _
      · rw [hrts, hsquares, hsum2, List.sum_cons, ← h.tsum2]
        exact Int.add_comm _ _

end Timing

/-- In every run of the system with a time in the probes and prompt answers, the times that are
kept are those of the round trips, from the clock at the probe to the clock at the answer. -/
theorem exchange_timed (family : Family) (sock : SockType) (prAddr : PrAddr)
    (settings : Settings) (options : PingRts) (oldRr : List UInt8) (es : List Event)
    (ready : Ready family sock options) (timed : 16 ≤ options.datalen)
    (faithful : (net family sock prAddr settings).Guarded (Faithful family sock)
      { loop := { ping := { rts := options.start } }, oldRr := oldRr } es)
    (timely : (net family sock prAddr settings).Guarded Timely
      { loop := { ping := { rts := options.start } }, oldRr := oldRr } es) :
    (net family sock prAddr settings).Always Timed
      { loop := { ping := { rts := options.start } }, oldRr := oldRr } es := by
  have hboth : (net family sock prAddr settings).Always
      (fun s => Kept family options.start s ∧ Unrounded s)
      { loop := { ping := { rts := options.start } }, oldRr := oldRr } es := by
    have hstart := Kept.start family { ping := { rts := options.start } } oldRr
    refine Machine.Always.of_invariant ⟨hstart, ⟨rfl, rfl, rfl, rfl⟩⟩ ?_ (faithful.and timely)
    rintro s e t ⟨hkept, hexact⟩ ⟨hfaithful, htimely⟩ hstep
    exact ⟨(hkept.step ready.start hfaithful hstep).1,
      hexact.step hkept ready.start timed hfaithful htimely hstep⟩
  exact hboth.mono fun s hs => hs.2.timed

theorem exchange_timed_once : (net .inet .raw onceAddr {}).Always Timed onceNet onceEvents :=
  exchange_timed .inet .raw onceAddr {} onceOptions [] onceEvents onceOptions_ready (by decide)
    (once_faithful rfl rfl)
    (once_guarded rfl rfl trivial fun _ _ _ =>
      ⟨⟨⟨by decide, by decide⟩, by decide, by decide⟩, by decide, by decide⟩)

end Coping.Exchange
