import Coping.Verification.ArpStatistics

/-!
# What arping sends and what it accepts

A packet that is laid out as ARP wants it is read back field by field, whatever the length of
the hardware addresses. The exceptions for FDDI, AX.25 and NET/ROM are the same in `send_pack`
and in `recv_pack`, so that the filters let pass the answer to any probe, and in DAD mode never
the probe itself.
-/

namespace Coping.ArpFilter

open Arping ArpStatistics CInt

/-- What a conforming neighbour sends back: sender and target swapped, its own hardware
address, and the operation of a reply. -/
def answer (hw probe : List UInt8) : List UInt8 :=
  let hln := (probe.getD 4 0).toNat
  probe.take 6 ++ network ARPOP_REPLY ++ hw ++ (probe.drop (8 + hln + 4 + hln)).take 4 ++
    (probe.drop 8).take hln ++ (probe.drop (8 + hln)).take 4

/-- The buffer begins with a packet, and not less than the packet has been received. -/
structure Holds (p : Arrival) (packet : List UInt8) : Prop where
  bytes : memory p.buf 0 packet.length = packet
  len : packet.length ≤ p.len

/-- The counters are in range, and so is the time since the last probe. -/
structure InRange (ctl : RunState) (ts : Timespec) : Prop where
  received : InInt (ctl.received + 1)
  brdRecv : InInt (ctl.brdRecv + 1)
  reqRecv : InInt (ctl.reqRecv + 1)
  time : (elapsedText ts ctl.last).isSome = true

/-- The packet passes the filters, and is counted. -/
structure Counted (ctl : RunState) (ts : Timespec) (p : Arrival) : Prop where
  passes : passes ctl p = true
  defined : InRange ctl ts → (recvPack ctl ts p).isSome = true
  received : ∀ r, recvPack ctl ts p = some r → r.1.received = ctl.received + 1

/-- What does not change in a run: the interface, the addresses and the mode. -/
structure SameSettings (ctl ctl' : RunState) : Prop where
  me : ctl'.me = ctl.me
  gsrc : ctl'.gsrc = ctl.gsrc
  gdst : ctl'.gdst = ctl.gdst
  dad : ctl'.dad = ctl.dad

variable {ctl ctl' : RunState} {ts : Timespec} {p : Arrival} {buf : Buffer}

/-! ## Reading a layout -/

theorem memory_append_inj {start : Nat} {front back : List UInt8}
    (h : memory buf start (front ++ back).length = front ++ back) :
    memory buf start front.length = front ∧
      memory buf (start + front.length) back.length = back := by
  rw [List.length_append, memory_add] at h
  exact List.append_inj h (length_memory buf start front.length)

theorem inAddrAt_eq {offset : Nat} {a : InAddr} (h : memory p.buf offset 4 = a.bytes) :
    inAddrAt p offset = a := by
  have hbytes : [p.buf offset, p.buf (offset + 1), p.buf (offset + 2), p.buf (offset + 3)] =
      [a.b0, a.b1, a.b2, a.b3] := h
  injection hbytes with h0 hbytes
  injection hbytes with h1 hbytes
  injection hbytes with h2 hbytes
  injection hbytes with h3
  rw [inAddrAt, h0, h1, h2, h3]

/-- A header, as it is read. -/
structure Header (p : Arrival) (hrd pro : UInt16) (hln : UInt8) (op : UInt16) : Prop where
  hrd : arHrd p = hrd
  pro : arPro p = pro
  hln : arHln p = hln
  pln : arPln p = 4
  op : arOp p = op

theorem header_of_memory {hrd pro op : UInt16} {hln : UInt8}
    (h : memory p.buf 0 8 = arpHeader hrd pro hln 4 op) : Header p hrd pro hln op := by
  have hbytes : [p.buf 0, p.buf 1, p.buf 2, p.buf 3, p.buf 4, p.buf 5, p.buf 6, p.buf 7] =
      arpHeader hrd pro hln 4 op := h
  injection hbytes with h0 hbytes
  injection hbytes with h1 hbytes
  injection hbytes with h2 hbytes
  injection hbytes with h3 hbytes
  injection hbytes with h4 hbytes
  injection hbytes with h5 hbytes
  injection hbytes with h6 hbytes
  injection hbytes with h7
  refine ⟨?_, ?_, h4, h5, ?_⟩
  · rw [arHrd, h0, h1, ByteOrder.word16_bytes]
  · rw [arPro, h2, h3, ByteOrder.word16_bytes]
  · rw [arOp, h6, h7, ByteOrder.word16_bytes]

/-- The addresses of a packet, as they are read. -/
structure Addresses (p : Arrival) (sha : List UInt8) (spa : InAddr) (tha : List UInt8)
    (tpa : InAddr) : Prop where
  srcHw : srcHw p = sha
  srcIp : srcIp p = spa
  dstHw : dstHw p = tha
  dstIp : dstIp p = tpa

/-- A packet with hardware addresses of any length is read field by field. -/
theorem layout {hrd pro op : UInt16} {hln : UInt8} {sha tha : List UInt8} {spa tpa : InAddr}
    (hsha : sha.length = hln.toNat) (htha : tha.length = hln.toNat)
    (h : Holds p (arpHeader hrd pro hln 4 op ++ sha ++ spa.bytes ++ tha ++ tpa.bytes)) :
    Header p hrd pro hln op ∧ Addresses p sha spa tha tpa := by
  obtain ⟨h, htpa⟩ := memory_append_inj h.bytes
  obtain ⟨h, htha'⟩ := memory_append_inj h
  obtain ⟨h, hspa⟩ := memory_append_inj h
  obtain ⟨h, hsha'⟩ := memory_append_inj h
  have hheader := header_of_memory h
  simp only [List.length_append, length_arpHeader, InAddr.length_bytes, hsha, htha, Nat.zero_add]
    at hsha' hspa htha' htpa
  refine ⟨hheader, ?_, ?_, ?_, ?_⟩
  · rw [srcHw, hheader.hln, hsha']
  · rw [srcIp, hheader.hln, inAddrAt_eq hspa]
  · rw [dstHw, hheader.hln, htha']
  · rw [dstIp, hheader.hln, inAddrAt_eq htpa]

/-! ## The exceptions -/

/-- The hardware type that is sent is one that is accepted from the interface. -/
theorem hrdOk_of_header {pro op : UInt16} {hln : UInt8} (interface : p.FROM.hatype = ctl.me.hatype)
    (h : Header p (sentHrd ctl.me) pro hln op) : hrdOk p = true := by
  rw [hrdOk, h.hrd, interface, sentHrd]
  by_cases hfddi : ctl.me.hatype = ARPHRD_FDDI
  · rw [if_pos hfddi, hfddi]
    rfl
  · rw [if_neg hfddi]
    simp

/-- So is the protocol that goes with it. -/
theorem proOk_of_header {hrd op : UInt16} {hln : UInt8} (h : Header p hrd (sentPro hrd) hln op) :
    proOk p = true := by
  rw [proOk, h.hrd, h.pro, sentPro]
  split
  · exact decide_eq_true rfl
  · exact decide_eq_true rfl

/-! ## The answer -/

/-- What is swapped and filled in. -/
theorem answer_layout (hw : List UInt8) {hrd pro op : UInt16} {hln : UInt8} {sha tha : List UInt8}
    {spa tpa : InAddr} (hsha : sha.length = hln.toNat) (htha : tha.length = hln.toNat) :
    answer hw (arpHeader hrd pro hln 4 op ++ sha ++ spa.bytes ++ tha ++ tpa.bytes) =
      arpHeader hrd pro hln 4 ARPOP_REPLY ++ hw ++ tpa.bytes ++ sha ++ spa.bytes := by
  obtain ⟨probe, hprobe⟩ : ∃ probe,
    probe = arpHeader hrd pro hln 4 op ++ sha ++ spa.bytes ++ tha ++ tpa.bytes := ⟨_, rfl⟩
  rw [← hprobe]
  have hhln : probe.getD 4 0 = hln := by
    rw [hprobe]
    rfl
  have hsix : probe.take 6 ++ network ARPOP_REPLY = arpHeader hrd pro hln 4 ARPOP_REPLY := by
    rw [hprobe]
    rfl
  have hbehind : probe.drop 8 = sha ++ (spa.bytes ++ tha ++ tpa.bytes) := by
    rw [hprobe]
    simp only [List.append_assoc]
    exact List.drop_left' (length_arpHeader _ _ _ _ _)
  have hlast : (probe.drop (8 + hln.toNat + 4 + hln.toNat)).take 4 = tpa.bytes := by
    rw [hprobe, List.drop_left']
    · exact List.take_of_length_le (Nat.le_refl 4)
    · simp only [List.length_append, length_arpHeader, hsha, InAddr.length_bytes, htha]
  have hfirst : (probe.drop 8).take hln.toNat = sha := by
    rw [hbehind]
    exact List.take_left' hsha
  have hmiddle : (probe.drop (8 + hln.toNat)).take 4 = spa.bytes := by
    rw [← List.drop_drop, hbehind, List.drop_left' hsha, List.append_assoc]
    exact List.take_left' spa.length_bytes
  rw [answer, hhln, hsix, hlast, hfirst, hmiddle]

/-- The answer is laid out like the probe. -/
theorem answer_read {hw : List UInt8} (length : hw.length = ctl.me.halen.toNat)
    (arrived : Holds p (answer hw (sentBytes ctl))) :
    Header p (sentHrd ctl.me) (sentPro (sentHrd ctl.me)) ctl.me.halen ARPOP_REPLY ∧
      Addresses p hw ctl.gdst ctl.me.hardware ctl.gsrc := by
  have htarget : (memory (if ctl.advert then ctl.me else ctl.he).addr 0
      ctl.me.halen.toNat).length = ctl.me.halen.toNat := length_memory _ _ _
  rw [sentBytes, answer_layout hw ctl.me.length_hardware htarget] at arrived
  exact layout length ctl.me.length_hardware arrived

theorem sentBytes_read (arrived : Holds p (sentBytes ctl)) :
    Addresses p ctl.me.hardware ctl.gsrc
      (memory (if ctl.advert then ctl.me else ctl.he).addr 0 ctl.me.halen.toNat) ctl.gdst ∧
      arHln p = ctl.me.halen := by
  obtain ⟨hheader, haddresses⟩ := layout ctl.me.length_hardware (length_memory _ _ _) arrived
  exact ⟨haddresses, hheader.hln⟩

/-- All of the filters, one after the other. -/
theorem answer_passes {hw : List UInt8} (same : SameSettings ctl ctl')
    (length : hw.length = ctl.me.halen.toNat) (other : ctl.dad = true → hw ≠ ctl.me.hardware)
    (arrived : Holds p (answer hw (sentBytes ctl))) (interface : p.FROM.hatype = ctl.me.hatype)
    (known : pkttypeOk p = true) : passes ctl' p = true := by
  obtain ⟨hheader, haddresses⟩ := answer_read length arrived
  have hop : opOk p = true := by
    rw [opOk, hheader.op]
    rfl
  have hlengths : lengthsOk ctl' p = true := by
    have hwhole : 8 + 2 * (4 + ctl.me.halen.toNat) ≤ p.len := by
      have hlen := arrived.len
      rw [sentBytes, answer_layout hw ctl.me.length_hardware (length_memory _ _ _)] at hlen
      simp only [List.length_append, length_arpHeader, InAddr.length_bytes,
        SockaddrLl.length_hardware, length] at hlen
      omega
    simp only [lengthsOk, hheader.pln, hheader.hln, same.me, hwhole, decide_true, Bool.and_self]
  have haddressesOk : addressesOk ctl' p = true := by
    rw [addressesOk, same.dad, same.gdst, same.gsrc, same.me, haddresses.srcIp, haddresses.dstIp,
      haddresses.dstHw, hheader.hln]
    by_cases hdad : ctl.dad = true
    · have hsrc : memory p.buf 8 ctl.me.halen.toNat = hw := by
        rw [← haddresses.srcHw, srcHw, hheader.hln]
      rw [if_pos hdad, hsrc]
      simp [other hdad]
    · rw [if_neg hdad]
      simp [SockaddrLl.hardware]
  simp only [passes, known, hop, hrdOk_of_header interface hheader, proOk_of_header hheader,
    hlengths, haddressesOk, Bool.and_self]

/-- In DAD mode our own hardware address is never accepted. -/
theorem own_probe_dropped (same : SameSettings ctl ctl') (dad : ctl.dad = true)
    (arrived : Holds p (sentBytes ctl)) (ts : Timespec) :
    recvPack ctl' ts p = some (ctl', [], .ignored) := by
  obtain ⟨haddresses, hhln⟩ := sentBytes_read arrived
  have hsrc : memory p.buf 8 ctl.me.halen.toNat = ctl.me.hardware := by
    rw [← haddresses.srcHw, srcHw, hhln]
  have haddressesOk : addressesOk ctl' p = false := by
    rw [addressesOk, same.dad, if_pos dad, same.me, hsrc]
    simp
  have hpasses : ¬passes ctl' p = true := by
    rw [passes, haddressesOk, Bool.and_false]
    exact Bool.false_ne_true
  exact if_neg hpasses

/-! ## Being counted -/

theorem countIf_isSome {condition : Bool} {n : Int} (h : InInt (n + 1)) :
    (countIf condition n).isSome = true := by
  cases condition with
  | true =>
      rw [countIf, if_pos rfl, checkedInt, if_pos h]
      rfl
  | false => rfl

theorem countKind_isSome (brdRecv : InInt (ctl.brdRecv + 1)) (reqRecv : InInt (ctl.reqRecv + 1)) :
    (countKind ctl p).isSome = true := by
  obtain ⟨brd, hbrd⟩ := Option.isSome_iff_exists.mp
    (@countIf_isSome (p.FROM.pkttype ≠ PACKET_HOST) ctl.brdRecv brdRecv)
  obtain ⟨req, hreq⟩ := Option.isSome_iff_exists.mp
    (@countIf_isSome (arOp p = ARPOP_REQUEST) ctl.reqRecv reqRecv)
  rw [countKind, hbrd, hreq]
  rfl

theorem replyLine_isSome (time : (elapsedText ts ctl.last).isSome = true) :
    (replyLine ctl ts p).isSome = true := by
  rw [replyLine]
  split
  · rfl
  · rw [Option.isSome_map]
    exact time

/-- With the counters and the time in range there is a next state. -/
theorem recvPack_isSome (inRange : InRange ctl ts) : (recvPack ctl ts p).isSome = true := by
  rw [recvPack]
  split
  · obtain ⟨line, hline⟩ := Option.isSome_iff_exists.mp (@replyLine_isSome _ _ p inRange.time)
    obtain ⟨counted, hcounted⟩ := Option.isSome_iff_exists.mp
      (@countKind_isSome { ctl with received := ctl.received + 1 } p inRange.brdRecv
        inRange.reqRecv)
    have hreceived : checkedInt (ctl.received + 1) = some (ctl.received + 1) :=
      if_pos inRange.received
    rw [hline, hreceived]
    simp only [Option.bind_eq_bind, Option.bind_some, hcounted]
    split
    · rfl
    split
    · rfl
    · rfl
  · rfl

theorem counted_of_passes (passed : passes ctl p = true) : Counted ctl ts p where
  passes := passed
  defined := recvPack_isSome
  received r h := by
    obtain ⟨ctl', line, returned⟩ := r
    rcases recvPack_counters h with ⟨hdropped, -⟩ | ⟨-, hreceived, -⟩
    · rw [passed] at hdropped
      cases hdropped
    · exact hreceived

/-! ## A run -/

theorem SameSettings.refl (ctl : RunState) : SameSettings ctl ctl := ⟨rfl, rfl, rfl, rfl⟩

theorem SameSettings.trans {ctl'' : RunState} (h : SameSettings ctl ctl')
    (h' : SameSettings ctl' ctl'') : SameSettings ctl ctl'' :=
  ⟨h'.me.trans h.me, h'.gsrc.trans h.gsrc, h'.gdst.trans h.gdst, h'.dad.trans h.dad⟩

theorem sameSettings_unicast (ctl : RunState) (p : Arrival) :
    SameSettings ctl (unicast ctl p) := by
  rw [unicast]
  split
  · exact .refl ctl
  · exact ⟨rfl, rfl, rfl, rfl⟩

theorem sameSettings_recvPack {r : RunState × List UInt8 × Returned}
    (h : recvPack ctl ts p = some r) : SameSettings ctl r.1 := by
  rcases recvPack_cases h with ⟨-, rfl⟩ | ⟨-, line, -, ⟨-, -, rfl⟩ | ⟨-, counted, hcounted, hr⟩⟩
  · exact .refl ctl
  · exact ⟨rfl, rfl, rfl, rfl⟩
  · have hkept : SameSettings ctl counted := by
      obtain ⟨brdRecv, -, hcounted⟩ := Option.bind_eq_some_iff.mp hcounted
      obtain ⟨reqRecv, -, hcounted⟩ := Option.bind_eq_some_iff.mp hcounted
      cases hcounted
      exact ⟨rfl, rfl, rfl, rfl⟩
    rcases hr with rfl | rfl
    · exact hkept
    · exact hkept.trans (sameSettings_unicast counted p)

/-- Whatever happens, the settings stay those of the options. -/
theorem sameSettings_run {options : RunState} {s : EventLoopState} {es : List Event}
    (same : SameSettings options s.ctl) :
    eventLoop.Always (fun t => SameSettings options t.ctl) s es := by
  refine Machine.Always.of_invariant (G := fun _ _ => True) same ?_
    (Machine.guarded_of_forall fun _ _ => trivial)
  intro s e t hsame _ hstep
  obtain ⟨-, last, sent, brdSent, ⟨-, hctl⟩ | ⟨ts, p, r, -, hrecv, hctl, -⟩⟩ :=
    eventLoop_cases hstep
  · rw [hctl]
    exact hsame.trans ⟨rfl, rfl, rfl, rfl⟩
  · have hprobed : SameSettings options
        { s.ctl with last := last, sent := sent, brdSent := brdSent } :=
      hsame.trans ⟨rfl, rfl, rfl, rfl⟩
    rw [hctl]
    exact hprobed.trans (sameSettings_recvPack hrecv)

theorem sameSettings_start {options : RunState} {now : Timespec} {success : Bool}
    {s : EventLoopState} (begun : start options now success = some s) :
    SameSettings options s.ctl := by
  obtain ⟨ctl, hsend, rfl⟩ := Option.map_eq_some_iff.mp begun
  obtain ⟨last, sent, brdSent, rfl⟩ := sendPack_eq hsend
  exact ⟨rfl, rfl, rfl, rfl⟩

/-- Throughout a run the answer to its first probe passes the filters. -/
theorem answer_passes_run {options : RunState} {now : Timespec} {success : Bool}
    {s : EventLoopState} {es : List Event} {hw : List UInt8}
    (begun : start options now success = some s)
    (length : hw.length = options.me.halen.toNat)
    (other : options.dad = true → hw ≠ options.me.hardware)
    (arrived : Holds p (answer hw (sentBytes options)))
    (interface : p.FROM.hatype = options.me.hatype) (known : pkttypeOk p = true) :
    eventLoop.Always (fun t => passes t.ctl p = true) s es :=
  (sameSettings_run (sameSettings_start begun)).mono fun _ same =>
    answer_passes same length other arrived interface known

/-- The answer to a probe is counted, in normal mode and in DAD mode, in the state that has sent
the probe and in any other with the same settings. In DAD mode the probe itself is not. -/
theorem builder_filter_agree (ctl ctl' : RunState) (same : SameSettings ctl ctl')
    (probe : List UInt8) (sent : sentPacket ctl = some probe) :
    (∀ hw : List UInt8, hw.length = ctl.me.halen.toNat →
      (ctl.dad = true → hw ≠ ctl.me.hardware) →
        ∀ p ts, Holds p (answer hw probe) → p.FROM.hatype = ctl.me.hatype →
          pkttypeOk p = true → Counted ctl' ts p) ∧
      (ctl.dad = true → ∀ p ts, Holds p probe →
        recvPack ctl' ts p = some (ctl', [], .ignored)) := by
  have hprobe : probe = sentBytes ctl := by
    rw [sentPacket] at sent
    split at sent
    · exact (Option.some.inj sent).symm
    · cases sent
  subst hprobe
  constructor
  · intro hw length other p ts arrived interface known
    exact counted_of_passes (answer_passes same length other arrived interface known)
  · intro dad p ts arrived
    exact own_probe_dropped same dad arrived ts

/-- The neighbour of `-c 1 -w 10`, and a probe of `-D` that comes back. -/
theorem builder_filter_agree_ethernet :
    Counted afterProbe.ctl { tvSec := 100 }
        { buf := fun i => neighbourBytes.getD i 0
          len := 28
          FROM := { oneProbe.me with pkttype := PACKET_HOST } } ∧
      recvPack { oneProbe with dad := true } { tvSec := 100 }
        { buf := fun i => (sentBytes oneProbe).getD i 0
          len := 28
          FROM := { oneProbe.me with pkttype := PACKET_BROADCAST } } =
        some ({ oneProbe with dad := true }, [], .ignored) :=
  ⟨(builder_filter_agree oneProbe afterProbe.ctl ⟨rfl, rfl, rfl, rfl⟩ (sentBytes oneProbe) rfl).1
      [0x22, 0x22, 0x22, 0x22, 0x22, 0x22] rfl (fun h => by cases h) _ _ ⟨rfl, by decide⟩ rfl rfl,
    (builder_filter_agree { oneProbe with dad := true } { oneProbe with dad := true }
      (.refl _) (sentBytes oneProbe) rfl).2 rfl _ _ ⟨rfl, by decide⟩⟩

end Coping.ArpFilter
