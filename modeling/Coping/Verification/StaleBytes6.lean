import Coping.Verification.StaleBytes

/-!
# What is left over in the receive buffer, with IPv6

`ping6_parse_reply` compares `cc` with the eight bytes of a header, and with those of a quoted
header behind an IPv6 header. A nonce and a fragment header need eight bytes more. When they were
not received, an earlier packet decides, unless the bytes that were received leave only one result.
-/

namespace Coping.StaleBytes

/-! ## Results -/

/-- The result of `ping6_parse_reply` for a message that is no reply, and the state behind it. -/
def messageOutcome6 (s : Settings) (sock : SockType) (rts : PingRts) (p : Packet) :
    Bool × PingRts :=
  if p.reply.cc < 8 + 40 + 8 ∨ p.quoted.target6 ≠ rts.whereto6 then (true, rts)
  else if p.quoted.nexthdr = IPPROTO_ICMPV6 then
    if p.quoted.type ≠ ICMP6_ECHO_REQUEST ∨ ¬isOurs rts sock p.quoted.id then (true, rts)
    else (false, acknowledge rts p.quoted.sequence)
  else if ¬s.optVerbose ∨ rts.uid ≠ 0 then (true, rts)
  else (false, rts)

/-- The result of `ping6_parse_reply` and the state behind it. -/
def outcome6 (s : Settings) (sock : SockType) (rts : PingRts) (p : Packet) : Bool × PingRts :=
  if p.reply.cc < 8 then (true, rts)
  else if p.type = ICMP6_ECHO_REPLY then
    if ¬isOurs rts sock p.id then (true, rts) else (false, gatherStatistics rts p.counted.reply)
  else if p.type = IPUTILS_NI_ICMP6_REPLY then
    if ¬niqueryCheckNonce rts.ni p.ni then (true, rts)
    else (false, gatherStatistics rts p.counted.reply)
  else messageOutcome6 s sock rts p

theorem ping6_outcome (s : Settings) (sock : SockType) (rts : PingRts) (oldRr : List UInt8)
    (p : Packet) :
    ((ping6ParseReply s sock rts oldRr p).notOurs, (ping6ParseReply s sock rts oldRr p).rts) =
      outcome6 s sock rts p := by
  simp only [ping6ParseReply, outcome6]
  split
  · rfl
  split
  · split
    · rfl
    · rfl
  split
  · split
    · rfl
    · rfl
  · simp only [ping6ParseMessage, messageOutcome6]
    split
    · rfl
    split
    · split
      · rfl
      · rfl
    split
    · rfl
    · rfl

/-! ## What an acknowledgement changes -/

/-- The number is acknowledged with an effect. -/
def Moves (rts : PingRts) (seq : UInt16) : Prop :=
  lag rts seq ≤ 0x7FFF ∧ (rts.pipesize ≤ lag rts seq ∨ seq ≠ rts.acked ∧
    (0 < CInt.toInt16 ((seq.toNat : Int) - rts.acked.toNat) ∨
      0x7FFF < (rts.ntransmitted : Int) % 65536 - rts.acked.toNat))

theorem lag_inj {rts : PingRts} {seq seq' : UInt16} (same : lag rts seq = lag rts seq') :
    seq = seq' := by
  have hseq := seq.toNat_lt
  have hseq' := seq'.toNat_lt
  simp only [lag] at same
  apply UInt16.toNat_inj.mp
  omega

theorem acknowledge_of_not_moves {rts : PingRts} {seq : UInt16} (still : ¬Moves rts seq) :
    acknowledge rts seq = rts := by
  have hacked : (acknowledge rts seq).acked = rts.acked := by
    rw [acknowledge_acked]
    split
    next h =>
      by_contra hne
      exact still ⟨h.1, .inr ⟨hne, h.2⟩⟩
    · rfl
  have hpipesize : (acknowledge rts seq).pipesize = rts.pipesize := by
    rw [acknowledge_pipesize]
    split
    next h =>
      by_contra hne
      exact still ⟨h, .inl (by omega)⟩
    · rfl
  calc acknowledge rts seq = { rts with
        acked := (acknowledge rts seq).acked
        pipesize := (acknowledge rts seq).pipesize } := rfl
    _ = rts := by rw [hacked, hpipesize]

/-- An acknowledgement with an effect shows its number. -/
theorem acknowledge_ne {rts : PingRts} {seq seq' : UInt16} (moves : Moves rts seq)
    (other : seq ≠ seq') : acknowledge rts seq ≠ acknowledge rts seq' := by
  intro same
  have hacked := congrArg PingRts.acked same
  have hpipesize := congrArg PingRts.pipesize same
  have hlag : lag rts seq ≠ lag rts seq' := fun h => other (lag_inj h)
  obtain ⟨hwindow, hwide | ⟨hne, hnewer⟩⟩ := moves
  · rw [acknowledge_pipesize, acknowledge_pipesize, if_pos hwindow] at hpipesize
    split at hpipesize
    · omega
    · omega
  · rw [acknowledge_acked, acknowledge_acked, if_pos ⟨hwindow, hnewer⟩] at hacked
    split at hacked
    · exact other hacked
    · exact hne hacked

/-! ## When the received bytes decide -/

/-- The nonce was received, or no nonce of a probe begins like the part of it that was. -/
def NonceDecided (ni : PingNi) (cc : Nat) (buf : Buffer) : Prop :=
  16 ≤ cc ∨ ∀ seq, ¬memory buf 8 (cc - 8) <+: niqueryFillNonce ni seq

/-- A word of two bytes at `offset` whose received bytes are those of the buffer. -/
def Completes (cc : Nat) (buf : Buffer) (offset : Nat) (b0 b1 : UInt8) : Prop :=
  (offset < cc → b0 = buf offset) ∧ (offset + 1 < cc → b1 = buf (offset + 1))

/-- The header behind a fragment header was received, or the part of it that was rules it out, or it
is one of ours and no number that it can have would change anything. -/
def HeaderDecided (rts : PingRts) (sock : SockType) (cc : Nat) (buf : Buffer) : Prop :=
  64 ≤ cc ∨ (56 < cc ∧ buf 56 ≠ ICMP6_ECHO_REQUEST) ∨
    (∀ b0 b1, Completes cc buf 60 b0 b1 → ¬isOurs rts sock (ByteOrder.little.load16 b0 b1)) ∨
    (56 < cc ∧ (sock = .raw → 62 ≤ cc) ∧
      ∀ b0 b1, Completes cc buf 62 b0 b1 → ¬Moves rts (ntohs (ByteOrder.little.load16 b0 b1)))

/-- A message that quotes a packet to the destination with a fragment header before ICMPv6. -/
def QuotesFragment (rts : PingRts) (cc : Nat) (buf : Buffer) : Prop :=
  buf 0 ≠ ICMP6_ECHO_REPLY ∧ buf 0 ≠ IPUTILS_NI_ICMP6_REPLY ∧ 8 + 40 + 8 ≤ cc ∧
    loadAddress6 buf (8 + 24) = rts.whereto6 ∧ buf (8 + 6) = NEXTHDR_FRAGMENT ∧
    buf (8 + 40) = IPPROTO_ICMPV6

/-- The received bytes leave one result. -/
def Decided (rts : PingRts) (sock : SockType) (cc : Nat) (buf : Buffer) : Prop :=
  (8 ≤ cc → buf 0 = IPUTILS_NI_ICMP6_REPLY → NonceDecided rts.ni cc buf) ∧
    (QuotesFragment rts cc buf → HeaderDecided rts sock cc buf)

/-! ## A nonce in the buffer -/

/-- The nonce of a reply is accepted if it is that of some probe. -/
theorem nonce_accepted_iff (ni : PingNi) (m : Received) (buf : Buffer) :
    niqueryCheckNonce ni (packet6 m buf).ni = true ↔
      ∃ seq, memory buf 8 8 = niqueryFillNonce ni seq := by
  have hmemory : memory buf 8 8 = [buf 8, buf 9] ++
      (Vector.ofFn fun i : Fin 6 => buf (10 + i)).toList := rfl
  have hcheck : niqueryCheckNonce ni (packet6 m buf).ni = true ↔
      ni.digest (ByteOrder.word16 (buf 8) (buf 9)) =
        Vector.ofFn fun i : Fin 6 => buf (10 + i) := by
    rw [niqueryCheckNonce, decide_eq_true_iff]
    change ni.digest (ntohs (load16 buf 8)) = _ ↔ _
    rw [load16, ntohs_load16]
    rfl
  rw [hcheck, hmemory]
  constructor
  · intro hdigest
    refine ⟨ByteOrder.word16 (buf 8) (buf 9), ?_⟩
    rw [niqueryFillNonce, be16_word16, hdigest]
  · rintro ⟨seq, hfill⟩
    rw [niqueryFillNonce, be16_eq] at hfill
    obtain ⟨hseq, hdigest⟩ := List.append_inj hfill rfl
    rw [List.cons.injEq, List.cons.injEq] at hseq
    rw [hseq.1, hseq.2.1, ByteOrder.word16_bytes]
    exact (Vector.toList_inj.mp hdigest).symm

/-- A nonce of which no completion belongs to a probe is rejected. -/
theorem nonce_rejected {ni : PingNi} {m : Received} {buf : Buffer} (short : m.cc < 16)
    (foreign : ∀ seq, ¬memory buf 8 (m.cc - 8) <+: niqueryFillNonce ni seq) :
    niqueryCheckNonce ni (packet6 m buf).ni = false := by
  by_contra haccepted
  rw [Bool.not_eq_false, nonce_accepted_iff] at haccepted
  obtain ⟨seq, hfill⟩ := haccepted
  apply foreign seq
  rw [← hfill, ← memory_take buf (show m.cc - 8 ≤ 8 by omega)]
  exact List.take_prefix _ _

/-! ## Decided results -/

variable {s : Settings} {sock : SockType} {rts : PingRts} {m : Received} {buf buf' : Buffer}

/-- With the nonce a reply was received as a whole, or it is rejected. -/
theorem nonce_same (same : SameTo m.cc buf buf') (header : 8 ≤ m.cc)
    (decided : NonceDecided rts.ni m.cc buf) :
    (niqueryCheckNonce rts.ni (packet6 m buf).ni = false ∧
      niqueryCheckNonce rts.ni (packet6 m buf').ni = false) ∨
    (packet6 m buf).ni = (packet6 m buf').ni := by
  have hnonce : 16 ≤ m.cc → (packet6 m buf).ni = (packet6 m buf').ni := by
    intro hwhole
    have hdigest : (Vector.ofFn fun i : Fin 6 => buf (10 + i)) =
        Vector.ofFn fun i : Fin 6 => buf' (10 + i) := by
      congr 1
      funext i
      exact same (10 + i) (by omega)
    simp only [packet6, same.load16 (by omega : 8 + 2 ≤ m.cc), hdigest]
  rcases decided with hwhole | hforeign
  · exact .inr (hnonce hwhole)
  · by_cases hwhole : 16 ≤ m.cc
    · exact .inr (hnonce hwhole)
    · left
      have hreceived : memory buf 8 (m.cc - 8) = memory buf' 8 (m.cc - 8) :=
        same.memory (by omega)
      refine ⟨nonce_rejected (by omega) hforeign, nonce_rejected (by omega) ?_⟩
      rwa [← hreceived]

/-- What follows from a quoted header. -/
def headerOutcome6 (rts : PingRts) (sock : SockType) (buf : Buffer) (offset : Nat) :
    Bool × PingRts :=
  if buf offset ≠ ICMP6_ECHO_REQUEST ∨ ¬isOurs rts sock (load16 buf (offset + 4)) then (true, rts)
  else (false, acknowledge rts (ntohs (load16 buf (offset + 6))))

theorem headerOutcome6_same {n offset : Nat} (same : SameTo n buf buf') (inside : offset + 8 ≤ n) :
    headerOutcome6 rts sock buf offset = headerOutcome6 rts sock buf' offset := by
  rw [headerOutcome6, headerOutcome6, same offset (by omega),
    same.load16 (by omega : offset + 4 + 2 ≤ n), same.load16 (by omega : offset + 6 + 2 ≤ n)]

theorem completes_of_same {n : Nat} (same : SameTo n buf buf') (offset : Nat) :
    Completes n buf offset (buf' offset) (buf' (offset + 1)) :=
  ⟨fun h => (same offset h).symm, fun h => (same (offset + 1) h).symm⟩

theorem completes_self (n : Nat) (buf : Buffer) (offset : Nat) :
    Completes n buf offset (buf offset) (buf (offset + 1)) :=
  ⟨fun _ => rfl, fun _ => rfl⟩

/-- A header behind a fragment header that is decided. -/
theorem headerOutcome6_decided {n : Nat} (same : SameTo n buf buf')
    (decided : HeaderDecided rts sock n buf) :
    headerOutcome6 rts sock buf 56 = headerOutcome6 rts sock buf' 56 := by
  rcases decided with hwhole | ⟨hreceived, htype⟩ | hforeign | ⟨hreceived, hid, hstill⟩
  · exact headerOutcome6_same same (by omega)
  · have htype' : buf' 56 ≠ ICMP6_ECHO_REQUEST := same 56 hreceived ▸ htype
    rw [headerOutcome6, headerOutcome6, if_pos (.inl htype), if_pos (.inl htype')]
  · have hid := hforeign _ _ (completes_self n buf 60)
    have hid' := hforeign _ _ (completes_of_same same 60)
    rw [headerOutcome6, headerOutcome6, if_pos (.inr hid), if_pos (.inr hid')]
  · -- Accepted or not, nothing changes.
    have hours : isOurs rts sock (load16 buf (56 + 4)) =
        isOurs rts sock (load16 buf' (56 + 4)) := by
      cases sock with
      | dgram => rfl
      | raw => rw [same.load16 (by have := hid rfl; omega)]
    have hack : acknowledge rts (ntohs (load16 buf (56 + 6))) = rts :=
      acknowledge_of_not_moves (hstill _ _ (completes_self n buf 62))
    have hack' : acknowledge rts (ntohs (load16 buf' (56 + 6))) = rts :=
      acknowledge_of_not_moves (hstill _ _ (completes_of_same same 62))
    rw [headerOutcome6, headerOutcome6, same 56 hreceived, hours, hack, hack']

/-- Where the header behind the quoted IPv6 header is, and what it is. -/
def quotedOffset (buf : Buffer) : Nat := if buf (8 + 6) = NEXTHDR_FRAGMENT then 56 else 48

def quotedNext (buf : Buffer) : UInt8 :=
  if buf (8 + 6) = NEXTHDR_FRAGMENT then buf (8 + 40) else buf (8 + 6)

theorem messageOutcome6_eq (s : Settings) (sock : SockType) (rts : PingRts) (m : Received)
    (buf : Buffer) :
    messageOutcome6 s sock rts (packet6 m buf) =
      if m.cc < 8 + 40 + 8 ∨ loadAddress6 buf (8 + 24) ≠ rts.whereto6 then (true, rts)
      else if quotedNext buf = IPPROTO_ICMPV6 then headerOutcome6 rts sock buf (quotedOffset buf)
      else if ¬s.optVerbose ∨ rts.uid ≠ 0 then (true, rts)
      else (false, rts) := by
  have hcc : (packet6 m buf).reply.cc < 8 + 40 + 8 ↔ m.cc < 8 + 40 + 8 := by
    change (m.cc : Int) < _ ↔ _
    omega
  have hquoted : (packet6 m buf).quoted = loadQuoted6 buf := rfl
  simp only [messageOutcome6, hcc, hquoted, loadQuoted6, quotedNext, quotedOffset, headerOutcome6]
  by_cases hfragment : buf (8 + 6) = NEXTHDR_FRAGMENT
  · simp only [if_pos hfragment]
  · simp only [if_neg hfragment]

theorem messageOutcome6_same (same : SameTo m.cc buf buf')
    (decided : 8 + 40 + 8 ≤ m.cc → loadAddress6 buf (8 + 24) = rts.whereto6 →
      buf (8 + 6) = NEXTHDR_FRAGMENT → buf (8 + 40) = IPPROTO_ICMPV6 →
        HeaderDecided rts sock m.cc buf) :
    messageOutcome6 s sock rts (packet6 m buf) = messageOutcome6 s sock rts (packet6 m buf') := by
  rw [messageOutcome6_eq, messageOutcome6_eq]
  by_cases hshort : m.cc < 8 + 40 + 8
  · rw [if_pos (.inl hshort), if_pos (.inl hshort)]
  have htarget : loadAddress6 buf (8 + 24) = loadAddress6 buf' (8 + 24) :=
    same.loadAddress6 (by omega)
  have hnext : buf (8 + 6) = buf' (8 + 6) := same _ (by omega)
  have hfirst : buf (8 + 40) = buf' (8 + 40) := same _ (by omega)
  rw [← htarget, quotedNext, quotedNext, quotedOffset, quotedOffset, ← hnext, ← hfirst]
  by_cases hforeign : m.cc < 8 + 40 + 8 ∨ loadAddress6 buf (8 + 24) ≠ rts.whereto6
  · rw [if_pos hforeign, if_pos hforeign]
  rw [if_neg hforeign, if_neg hforeign]
  rw [not_or, not_not] at hforeign
  by_cases hfragment : buf (8 + 6) = NEXTHDR_FRAGMENT
  · simp only [if_pos hfragment]
    by_cases hicmp : buf (8 + 40) = IPPROTO_ICMPV6
    · rw [if_pos hicmp, if_pos hicmp]
      exact headerOutcome6_decided same (decided (by omega) hforeign.2 hfragment hicmp)
    · rw [if_neg hicmp, if_neg hicmp]
  · simp only [if_neg hfragment]
    rw [headerOutcome6_same same (by omega : 48 + 8 ≤ m.cc)]

theorem packet6_counted_same (same : SameTo m.cc buf buf') (header : 8 ≤ m.cc)
    (ni : (packet6 m buf).type = ICMP6_ECHO_REPLY ∨ (packet6 m buf).ni = (packet6 m buf').ni) :
    gatherStatistics rts (packet6 m buf).counted.reply =
      gatherStatistics rts (packet6 m buf').counted.reply := by
  have htype : (packet6 m buf).type = (packet6 m buf').type := same 0 (by omega)
  have hreply : SameReply (packet6 m buf).reply (packet6 m buf').reply :=
    loadReply_same same header false m
  apply gatherStatistics_same
  simp only [Packet.counted, ← htype]
  split
  · exact ⟨hreply.cc, hreply.seq, rfl, hreply.tv, hreply.now, hreply.stamp⟩
  next hother =>
    exact ⟨hreply.cc, congrArg NiReply.nonceSeq (ni.resolve_left hother), rfl, hreply.tv,
      hreply.now, hreply.stamp⟩

theorem outcome6_same (same : SameTo m.cc buf buf') (decided : Decided rts sock m.cc buf) :
    outcome6 s sock rts (packet6 m buf) = outcome6 s sock rts (packet6 m buf') := by
  have hcc : (packet6 m buf').reply.cc = (packet6 m buf).reply.cc := rfl
  simp only [outcome6, hcc]
  by_cases hshort : (packet6 m buf).reply.cc < 8
  · rw [if_pos hshort, if_pos hshort]
  rw [if_neg hshort, if_neg hshort]
  have hheader : 8 ≤ m.cc := by
    change ¬(m.cc : Int) < 8 at hshort
    omega
  have htype : (packet6 m buf).type = (packet6 m buf').type := same 0 (by omega)
  have hid : (packet6 m buf).id = (packet6 m buf').id := same.load16 (by omega)
  rw [← htype, ← hid]
  by_cases hecho : (packet6 m buf).type = ICMP6_ECHO_REPLY
  · rw [if_pos hecho, if_pos hecho, packet6_counted_same same hheader (.inl hecho)]
  rw [if_neg hecho, if_neg hecho]
  by_cases hni : (packet6 m buf).type = IPUTILS_NI_ICMP6_REPLY
  · rw [if_pos hni, if_pos hni]
    rcases nonce_same same hheader (decided.1 hheader hni) with ⟨hfirst, hsecond⟩ | hsame
    · rw [hfirst, hsecond]
      rfl
    · rw [packet6_counted_same same hheader (.inr hsame), hsame]
  · rw [if_neg hni, if_neg hni]
    exact messageOutcome6_same same fun hlong htarget hfragment hicmp =>
      decided.2 ⟨hecho, hni, hlong, htarget, hfragment, hicmp⟩

/-! ## Results that are not decided -/

/-- The buffer with other bytes behind the first `n`. -/
def overlay (n : Nat) (buf other : Buffer) : Buffer := fun i => if i < n then buf i else other i

theorem same_overlay (n : Nat) (buf other : Buffer) : SameTo n buf (overlay n buf other) :=
  fun _ hi => (if_pos hi).symm

theorem overlay_of_lt {n i : Nat} (h : i < n) (buf other : Buffer) :
    overlay n buf other i = buf i := if_pos h

theorem overlay_of_ge {n i : Nat} (h : n ≤ i) (buf other : Buffer) :
    overlay n buf other i = other i := if_neg (Nat.not_lt.mpr h)

/-- Another byte at one place. -/
def flip (buf : Buffer) (k : Nat) : Buffer := fun i => if i = k then buf i + 1 else buf i

theorem same_flip {n k : Nat} (h : n ≤ k) (buf : Buffer) : SameTo n buf (flip buf k) :=
  fun i hi => (if_neg (by omega : i ≠ k)).symm

theorem flip_ne (buf : Buffer) (k : Nat) : flip buf k k ≠ buf k := by
  rw [flip, if_pos rfl]
  intro h
  have hcancel : buf k + 1 = buf k + 0 := by rw [h, UInt8.add_zero]
  exact absurd (UInt8.add_right_inj _ |>.mp hcancel) (by decide)

/-- The first two bytes of a nonce determine it. -/
theorem fill_inj {ni : PingNi} {seq seq' : UInt16}
    (same : (niqueryFillNonce ni seq).take 2 = (niqueryFillNonce ni seq').take 2) :
    seq = seq' := by
  have htake : ∀ x, (niqueryFillNonce ni x).take 2 =
      [UInt8.ofNat (x.toNat / 256), UInt8.ofNat (x.toNat % 256)] := fun x => by
    rw [niqueryFillNonce, be16_eq]
    rfl
  rw [htake, htake, List.cons.injEq, List.cons.injEq] at same
  rw [← ByteOrder.word16_bytes seq, same.1, same.2.1, ByteOrder.word16_bytes]

/-- The nonce of a probe completes the part of it that was received. -/
theorem memory_overlay {ni : PingNi} {seq : UInt16} {cc : Nat} (header : 8 ≤ cc)
    (begins : memory buf 8 (cc - 8) <+: niqueryFillNonce ni seq) :
    memory (overlay cc buf fun i => (niqueryFillNonce ni seq).getD (i - 8) 0) 8 8 =
      niqueryFillNonce ni seq := by
  have hlength := length_niqueryFillNonce ni seq
  apply List.ext_getElem
  · rw [hlength, memory, List.length_map, List.length_range]
  · intro i hi hi'
    have hget : (memory (overlay cc buf fun i => (niqueryFillNonce ni seq).getD (i - 8) 0) 8 8)[i] =
        overlay cc buf (fun i => (niqueryFillNonce ni seq).getD (i - 8) 0) (8 + i) := by
      simp only [memory, List.getElem_map, List.getElem_range]
    rw [hget]
    by_cases hreceived : 8 + i < cc
    · rw [overlay_of_lt hreceived]
      have hfront := begins.getElem (i := i) (by
        rw [memory, List.length_map, List.length_range]
        omega)
      rw [← hfront]
      simp only [memory, List.getElem_map, List.getElem_range]
    · rw [overlay_of_ge (by omega), Nat.add_sub_cancel_left]
      exact List.getD_eq_getElem _ _ hi'

/-- A nonce with another last byte is none. -/
theorem nonce_flip {ni : PingNi} (accepted : ∃ seq, memory buf 8 8 = niqueryFillNonce ni seq) :
    ¬∃ seq, memory (flip buf 15) 8 8 = niqueryFillNonce ni seq := by
  rintro ⟨seq', hflip⟩
  obtain ⟨seq, hfill⟩ := accepted
  have htake : (memory (flip buf 15) 8 8).take 2 = (memory buf 8 8).take 2 := rfl
  rw [hflip, hfill] at htake
  rw [fill_inj htake, ← hfill] at hflip
  have hlast := congrArg (fun bytes => bytes[7]?) hflip
  exact flip_ne buf 15 (Option.some.inj hlast)

/-- Whatever is left over in the buffer, the result is the same. -/
def OneResult (s : Settings) (sock : SockType) (rts : PingRts) (m : Received) (buf : Buffer) :
    Prop :=
  ∀ buf', SameTo m.cc buf buf' →
    outcome6 s sock rts (packet6 m buf) = outcome6 s sock rts (packet6 m buf')

theorem OneResult.eq (one : OneResult s sock rts m buf) {first second : Buffer}
    (hfirst : SameTo m.cc buf first) (hsecond : SameTo m.cc buf second) :
    outcome6 s sock rts (packet6 m first) = outcome6 s sock rts (packet6 m second) :=
  (one first hfirst).symm.trans (one second hsecond)

theorem SameTo.flip_right {n k : Nat} (same : SameTo n buf buf') (h : n ≤ k) :
    SameTo n buf (flip buf' k) := fun i hi => (same i hi).trans (same_flip h buf' i hi)

/-- A node information reply is counted if its nonce is accepted. -/
theorem outcome6_nonce (header : 8 ≤ m.cc) (type : buf 0 = IPUTILS_NI_ICMP6_REPLY) :
    (outcome6 s sock rts (packet6 m buf)).1 = false ↔
      ∃ seq, memory buf 8 8 = niqueryFillNonce rts.ni seq := by
  have hcc : ¬(packet6 m buf).reply.cc < 8 := by
    change ¬(m.cc : Int) < 8
    omega
  have htype : (packet6 m buf).type = IPUTILS_NI_ICMP6_REPLY := type
  have hecho : (packet6 m buf).type ≠ ICMP6_ECHO_REPLY := by
    rw [htype]
    decide
  rw [← nonce_accepted_iff rts.ni m buf, outcome6, if_neg hcc, if_neg hecho, if_pos htype]
  cases niqueryCheckNonce rts.ni (packet6 m buf).ni with
  | true => exact ⟨fun _ => rfl, fun _ => rfl⟩
  | false =>
      rw [if_pos Bool.false_ne_true]
      exact iff_of_false Bool.false_ne_true.symm Bool.false_ne_true

theorem nonceDecided_of_oneResult (one : OneResult s sock rts m buf) (header : 8 ≤ m.cc)
    (type : buf 0 = IPUTILS_NI_ICMP6_REPLY) : NonceDecided rts.ni m.cc buf := by
  by_contra hundecided
  rw [NonceDecided, not_or, not_forall] at hundecided
  obtain ⟨hshort, seq, hbegins⟩ := hundecided
  have hsame := same_overlay m.cc buf fun i => (niqueryFillNonce rts.ni seq).getD (i - 8) 0
  have haccepted := memory_overlay header (not_not.mp hbegins)
  generalize (overlay m.cc buf fun i => (niqueryFillNonce rts.ni seq).getD (i - 8) 0) = whole
    at hsame haccepted
  have hsame' := SameTo.flip_right hsame (by omega : m.cc ≤ 15)
  have hcounted : (outcome6 s sock rts (packet6 m whole)).1 = false :=
    (outcome6_nonce header ((hsame 0 (by omega)).symm.trans type)).mpr ⟨seq, haccepted⟩
  rw [one.eq hsame hsame',
    outcome6_nonce header ((hsame' 0 (by omega)).symm.trans type)] at hcounted
  exact nonce_flip ⟨seq, haccepted⟩ hcounted

/-- What the header behind a fragment header leads to. -/
theorem outcome6_fragment (quotes : QuotesFragment rts m.cc buf) :
    outcome6 s sock rts (packet6 m buf) = headerOutcome6 rts sock buf 56 := by
  obtain ⟨hecho, hni, hlong, htarget, hfragment, hnext⟩ := quotes
  have hcc : ¬(packet6 m buf).reply.cc < 8 := by
    change ¬(m.cc : Int) < 8
    omega
  have hfar : ¬(m.cc < 8 + 40 + 8 ∨ loadAddress6 buf (8 + 24) ≠ rts.whereto6) := by
    rw [not_or, not_not]
    exact ⟨by omega, htarget⟩
  have hicmp : quotedNext buf = IPPROTO_ICMPV6 := by rw [quotedNext, if_pos hfragment, hnext]
  have hoffset : quotedOffset buf = 56 := if_pos hfragment
  have hmessage : outcome6 s sock rts (packet6 m buf) =
      messageOutcome6 s sock rts (packet6 m buf) := by
    rw [outcome6, if_neg hcc]
    exact (if_neg hecho).trans (if_neg hni)
  rw [hmessage, messageOutcome6_eq, if_neg hfar, if_pos hicmp, hoffset]

theorem QuotesFragment.same (quotes : QuotesFragment rts m.cc buf)
    (same : SameTo m.cc buf buf') : QuotesFragment rts m.cc buf' := by
  obtain ⟨hecho, hni, hlong, htarget, hfragment, hnext⟩ := quotes
  rw [same 0 (by omega)] at hecho hni
  rw [same.loadAddress6 (by omega)] at htarget
  rw [same _ (by omega)] at hfragment hnext
  exact ⟨hecho, hni, hlong, htarget, hfragment, hnext⟩

/-- A header of ours that is left over acknowledges its number. -/
theorem headerOutcome6_ours (offset : Nat) (type : buf offset = ICMP6_ECHO_REQUEST)
    (ours : isOurs rts sock (load16 buf (offset + 4)) = true) :
    headerOutcome6 rts sock buf offset =
      (false, acknowledge rts (ntohs (load16 buf (offset + 6)))) := by
  rw [headerOutcome6, if_neg]
  rw [not_or, not_not, not_not]
  exact ⟨type, ours⟩

/-- A byte of the header that does not fit. -/
theorem headerOutcome6_flip {k : Nat} (hk : k = 56 ∨ sock = .raw ∧ k = 61)
    (type : buf 56 = ICMP6_ECHO_REQUEST) (ours : isOurs rts sock (load16 buf 60) = true) :
    headerOutcome6 rts sock (flip buf k) 56 = (true, rts) := by
  rw [headerOutcome6, if_pos]
  rcases hk with rfl | ⟨hraw, rfl⟩
  · left
    rw [← type]
    exact flip_ne buf 56
  · right
    subst hraw
    intro hflip
    rw [isOurs, Bool.or_eq_true, or_iff_right (by decide), decide_eq_true_iff] at ours hflip
    have hid : load16 (flip buf 61) 60 = load16 buf 60 :=
      UInt16.toNat_inj.mp (Int.ofNat_inj.mp (hflip.trans ours.symm))
    exact flip_ne buf 61 (ByteOrder.load16_inj.mp hid).2

/-- A number with another last byte. -/
theorem number_flip (buf : Buffer) (offset : Nat) :
    ntohs (load16 buf offset) ≠ ntohs (load16 (flip buf (offset + 1)) offset) := by
  rw [load16, load16, ntohs_eq, ntohs_eq]
  intro h
  have hload := congrArg ByteOrder.little.htons h
  rw [ByteOrder.htons_htons, ByteOrder.htons_htons] at hload
  exact flip_ne buf (offset + 1) (ByteOrder.load16_inj.mp hload).2.symm

/-- The rest of a header of ours. -/
def restOfHeader (b0 b1 c0 c1 : UInt8) : Buffer := fun i =>
  if i = 56 then ICMP6_ECHO_REQUEST else if i = 60 then b0 else if i = 61 then b1
  else if i = 62 then c0 else if i = 63 then c1 else 0

/-- What was received is completed by it. -/
theorem load16_overlay {n offset : Nat} {b0 b1 : UInt8} {rest : Buffer}
    (completes : Completes n buf offset b0 b1) (first : rest offset = b0)
    (second : rest (offset + 1) = b1) :
    load16 (overlay n buf rest) offset = ByteOrder.little.load16 b0 b1 := by
  have hfirst : overlay n buf rest offset = b0 := by
    rw [overlay, first]
    split
    next h => exact (completes.1 h).symm
    · rfl
  have hsecond : overlay n buf rest (offset + 1) = b1 := by
    rw [overlay, second]
    split
    next h => exact (completes.2 h).symm
    · rfl
  rw [load16, hfirst, hsecond]

theorem exists_completes (n : Nat) (buf : Buffer) (offset : Nat) :
    ∃ b0 b1, Completes n buf offset b0 b1 := ⟨_, _, completes_self n buf offset⟩

/-- What is left over may be the rest of a header of ours. -/
theorem headerDecided_of_oneResult (one : OneResult s sock rts m buf)
    (quotes : QuotesFragment rts m.cc buf) : HeaderDecided rts sock m.cc buf := by
  by_contra hundecided
  simp only [HeaderDecided, not_or, not_and, not_forall, not_not] at hundecided
  obtain ⟨hshort, htype, ⟨b0, b1, hid, hours⟩, hnumber⟩ := hundecided
  have hlong : 8 + 40 + 8 ≤ m.cc := quotes.2.2.1
  obtain ⟨c0, c1, hcompletes, hmoves⟩ : ∃ c0 c1, Completes m.cc buf 62 c0 c1 ∧
      (56 < m.cc → (sock = .raw → 62 ≤ m.cc) →
        Moves rts (ntohs (ByteOrder.little.load16 c0 c1))) := by
    by_cases hknown : 56 < m.cc ∧ (sock = .raw → 62 ≤ m.cc)
    · obtain ⟨c0, c1, hcompletes, hmoves⟩ := hnumber hknown.1 hknown.2
      exact ⟨c0, c1, hcompletes, fun _ _ => hmoves⟩
    · obtain ⟨c0, c1, hcompletes⟩ := exists_completes m.cc buf 62
      exact ⟨c0, c1, hcompletes, fun h h' => absurd ⟨h, h'⟩ hknown⟩
  have hsame := same_overlay m.cc buf (restOfHeader b0 b1 c0 c1)
  have hrequest : overlay m.cc buf (restOfHeader b0 b1 c0 c1) 56 = ICMP6_ECHO_REQUEST := by
    rw [overlay]
    split
    next h => exact htype h
    · rfl
  have hourid :
      isOurs rts sock (load16 (overlay m.cc buf (restOfHeader b0 b1 c0 c1)) 60) = true := by
    rw [load16_overlay hid rfl rfl]
    exact hours
  have hseq : load16 (overlay m.cc buf (restOfHeader b0 b1 c0 c1)) 62 =
      ByteOrder.little.load16 c0 c1 := load16_overlay hcompletes rfl rfl
  -- The completed header is one of ours.
  generalize overlay m.cc buf (restOfHeader b0 b1 c0 c1) = whole at hsame hrequest hourid hseq
  have haccept := headerOutcome6_ours 56 hrequest hourid
  have hresult : ∀ k, m.cc ≤ k → headerOutcome6 rts sock whole 56 =
      headerOutcome6 rts sock (flip whole k) 56 := by
    intro k hk
    have hflip := SameTo.flip_right hsame hk
    have hone := one.eq hsame hflip
    rwa [outcome6_fragment (quotes.same hsame), outcome6_fragment (quotes.same hflip)] at hone
  by_cases hbyte : m.cc = 56
  · have hreject := hresult 56 (by omega)
    rw [haccept, headerOutcome6_flip (.inl rfl) hrequest hourid] at hreject
    exact absurd (congrArg Prod.fst hreject) Bool.false_ne_true
  by_cases hraw : sock = .raw ∧ m.cc ≤ 61
  · have hreject := hresult 61 hraw.2
    rw [haccept, headerOutcome6_flip (.inr ⟨hraw.1, rfl⟩) hrequest hourid] at hreject
    exact absurd (congrArg Prod.fst hreject) Bool.false_ne_true
  · have hother := hresult 63 (by omega)
    have hours' : isOurs rts sock (load16 (flip whole 63) (56 + 4)) = true := hourid
    have hrequest' : flip whole 63 56 = ICMP6_ECHO_REQUEST := hrequest
    rw [haccept, headerOutcome6_ours 56 hrequest' hours'] at hother
    have hmoved : Moves rts (ntohs (load16 whole 62)) := by
      rw [hseq]
      exact hmoves (by omega) fun h => by
        by_contra hlt
        exact hraw ⟨h, by omega⟩
    exact acknowledge_ne hmoved (number_flip whole 62) (congrArg Prod.snd hother)

/-- The result does not depend on what is left over in the buffer exactly if it is decided. -/
theorem oneResult_iff : OneResult s sock rts m buf ↔ Decided rts sock m.cc buf := by
  constructor
  · intro one
    exact ⟨fun header type => nonceDecided_of_oneResult one header type,
      fun quotes => headerDecided_of_oneResult one quotes⟩
  · intro hdecided buf' hsame
    exact outcome6_same hsame hdecided

/-- `parse_reply` sees no difference between two buffers that agree on what was received exactly if
what was received decides about a nonce and about a header behind a fragment header. -/
theorem stale_bytes_ipv6 (s : Settings) (sock : SockType) (rts : PingRts) (oldRr : List UInt8)
    (m : Received) (buf : Buffer) :
    (∀ buf', SameTo m.cc buf buf' →
      let parsed := ping6ParseReply s sock rts oldRr (packet6 m buf)
      let parsed' := ping6ParseReply s sock rts oldRr (packet6 m buf')
      parsed.notOurs = parsed'.notOurs ∧ parsed.rts = parsed'.rts) ↔
      Decided rts sock m.cc buf := by
  rw [← @oneResult_iff s]
  have hpair : ∀ buf', ((ping6ParseReply s sock rts oldRr (packet6 m buf)).notOurs =
        (ping6ParseReply s sock rts oldRr (packet6 m buf')).notOurs ∧
      (ping6ParseReply s sock rts oldRr (packet6 m buf)).rts =
        (ping6ParseReply s sock rts oldRr (packet6 m buf')).rts) ↔
      outcome6 s sock rts (packet6 m buf) = outcome6 s sock rts (packet6 m buf') := by
    intro buf'
    rw [← ping6_outcome s sock rts oldRr, ← ping6_outcome s sock rts oldRr, Prod.mk.injEq]
  exact forall_congr' fun buf' => imp_congr_right fun _ => hpair buf'

/-- The header of a node information reply alone, over a buffer with the nonce of a probe. -/
def headerOverNonce : Buffer := fun i => if i = 0 then IPUTILS_NI_ICMP6_REPLY else 0

/-- The same over something else. -/
def headerOverNoise : Buffer := fun i =>
  if i = 0 then IPUTILS_NI_ICMP6_REPLY else if i < 8 then 0 else 0xff

/-- With eight bytes received, a nonce that is left over is accepted. -/
theorem stale_nonce_counts :
    ¬∀ (s : Settings) (sock : SockType) (rts : PingRts) (oldRr : List UInt8) (m : Received)
      (buf buf' : Buffer), SameTo m.cc buf buf' →
        let parsed := ping6ParseReply s sock rts oldRr (packet6 m buf)
        let parsed' := ping6ParseReply s sock rts oldRr (packet6 m buf')
        parsed.notOurs = parsed'.notOurs ∧ parsed.rts = parsed'.rts := by
  intro hsame
  have hboth := hsame {} .dgram {} [] { cc := 8, host := noHost } headerOverNonce headerOverNoise
    (by unfold SameTo; decide)
  exact absurd hboth.1 (by decide)

end Coping.StaleBytes
