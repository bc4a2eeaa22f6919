import Coping.Ping.Wire

/-!
# What is left over in the receive buffer

Two buffers that agree on the bytes that were received may differ behind them. With IPv4 every
length that is taken from the packet is compared with `cc` before a byte is read at the place that
it leads to.
-/

namespace Coping.StaleBytes

/-- Replies that `gather_statistics` does not tell apart: the time in a payload is looked at only
if it was received. -/
structure SameReply (reply reply' : Reply) : Prop where
  cc : reply.cc = reply'.cc
  seq : reply.seq = reply'.seq
  csfailed : reply.csfailed = reply'.csfailed
  tv : reply.tv = reply'.tv
  now : reply.now = reply'.now
  stamp : TIMED_LEN ≤ reply.cc → reply.stamp = reply'.stamp

theorem gatherStatistics_same {reply reply' : Reply} (h : SameReply reply reply')
    (rts : PingRts) : gatherStatistics rts reply = gatherStatistics rts reply' := by
  obtain ⟨hcc, hseq, hcsfailed, htv, hnow, hstamp⟩ := h
  by_cases htimed : TIMED_LEN ≤ reply.cc
  · have heq : reply = reply' := by
      cases reply
      cases reply'
      simp only [Reply.mk.injEq]
      exact ⟨hcc, hseq, hcsfailed, htv, hstamp htimed, hnow⟩
    rw [heq]
  · have huntimed : ¬(rts.timing ∧ reply.cc ≥ TIMED_LEN) := fun h => htimed h.2
    have huntimed' : ¬(rts.timing ∧ reply'.cc ≥ TIMED_LEN) := hcc ▸ huntimed
    simp only [gatherStatistics, receiveReply, if_neg huntimed, if_neg huntimed', hseq, hcsfailed]

/-- The replies in two buffers that agree on what was received. -/
theorem loadReply_same {buf buf' : Buffer} {cc : Nat} (same : SameTo cc buf buf')
    (header : 8 ≤ cc) (csfailed : Bool) (m : Received) :
    SameReply (loadReply buf cc csfailed m) (loadReply buf' cc csfailed m) := by
  refine ⟨rfl, ?_, rfl, rfl, rfl, ?_⟩
  · simp only [loadReply, same.load16 (by omega : 6 + 2 ≤ cc)]
  · intro htimed
    change (24 : Int) ≤ cc at htimed
    exact same.loadTimeval (by omega)

/-! ## IPv4 -/

/-- The result of `ping4_parse_reply` and the state behind it. -/
def outcome4 (rts : PingRts) (p : Packet) : Bool × PingRts :=
  if p.reply.cc < 8 ∨ p.ihl < 5 then (true, rts)
  else if p.type = ICMP_ECHOREPLY then
    if ¬isOurs rts .raw p.id then (true, rts) else (false, gatherStatistics rts p.reply)
  else if p.type = ICMP_ECHO then (true, rts)
  else if p.type = ICMP_SOURCE_QUENCH ∨ p.type = ICMP_REDIRECT ∨ p.type = ICMP_DEST_UNREACH ∨
      p.type = ICMP_TIME_EXCEEDED ∨ p.type = ICMP_PARAMETERPROB then
    if p.reply.cc < 8 + 20 + 8 ∨ p.reply.cc < 8 + p.quoted.ihl * 4 + 8 ∨
        p.quoted.type ≠ ICMP_ECHO ∨ p.quoted.target ≠ rts.whereto ∨
        ¬isOurs rts .raw p.quoted.id then (true, rts)
    else if p.type ≠ ICMP_REDIRECT ∧ p.type ≠ ICMP_SOURCE_QUENCH then
      (false, acknowledge rts p.quoted.sequence)
    else (true, rts)
  else (false, rts)

theorem ping4_outcome (prAddr : PrAddr) (s : Settings) (rts : PingRts) (oldRr : List UInt8)
    (p : Packet) :
    ((ping4ParseReply prAddr s .raw rts oldRr p).notOurs,
      (ping4ParseReply prAddr s .raw rts oldRr p).rts) = outcome4 rts p := by
  simp only [ping4ParseReply, outcome4, true_and]
  split
  · rfl
  split
  · split
    · rfl
    · rfl
  split
  · rfl
  split
  · split
    · rfl
    split
    · rfl
    · rfl
  · rfl

/-- Packets that `ping4_parse_reply` does not tell apart. -/
structure SamePacket4 (p p' : Packet) : Prop where
  ihl : p.ihl = p'.ihl
  reply : SameReply p.reply p'.reply
  type : p.type = p'.type
  id : p.id = p'.id
  quoted : 8 + 20 + 8 ≤ p.reply.cc → p.quoted.ihl = p'.quoted.ihl ∧
    (8 + p.quoted.ihl * 4 + 8 ≤ p.reply.cc → p.quoted = p'.quoted)

theorem outcome4_same {p p' : Packet} (h : SamePacket4 p p') (rts : PingRts) :
    outcome4 rts p = outcome4 rts p' := by
  have hgather := gatherStatistics_same h.reply rts
  have hquoted : (p.reply.cc < 8 + 20 + 8 ∨ p.reply.cc < 8 + p.quoted.ihl * 4 + 8 ∨
        p.quoted.type ≠ ICMP_ECHO ∨ p.quoted.target ≠ rts.whereto ∨
        ¬isOurs rts .raw p.quoted.id) ∧
      (p'.reply.cc < 8 + 20 + 8 ∨ p'.reply.cc < 8 + p'.quoted.ihl * 4 + 8 ∨
        p'.quoted.type ≠ ICMP_ECHO ∨ p'.quoted.target ≠ rts.whereto ∨
        ¬isOurs rts .raw p'.quoted.id) ∨ p.quoted = p'.quoted := by
    by_cases hheader : 8 + 20 + 8 ≤ p.reply.cc
    · obtain ⟨hihl, hwhole⟩ := h.quoted hheader
      by_cases hinside : 8 + p.quoted.ihl * 4 + 8 ≤ p.reply.cc
      · exact .inr (hwhole hinside)
      · have hshort : p.reply.cc < 8 + p.quoted.ihl * 4 + 8 := by omega
        exact .inl ⟨.inr (.inl hshort), .inr (.inl (h.reply.cc ▸ hihl ▸ hshort))⟩
    · have hshort : p.reply.cc < 8 + 20 + 8 := by omega
      exact .inl ⟨.inl hshort, .inl (h.reply.cc ▸ hshort)⟩
  simp only [outcome4, ← h.reply.cc, ← h.ihl, ← h.type, ← h.id, ← hgather] at hquoted ⊢
  rcases hquoted with ⟨hforeign, hforeign'⟩ | hquoted
  · rw [if_pos hforeign, if_pos hforeign']
  · rw [hquoted]

/-- The quoted header, as far as it was received. -/
theorem loadQuoted4_same {icmp icmp' : Buffer} {cc : Nat} (same : SameTo cc icmp icmp')
    (header : 8 + 20 + 8 ≤ cc) :
    (loadQuoted4 icmp).ihl = (loadQuoted4 icmp').ihl ∧
      (8 + (loadQuoted4 icmp).ihl * 4 + 8 ≤ cc → loadQuoted4 icmp = loadQuoted4 icmp') := by
  have hihl : loadIhl icmp 8 = loadIhl icmp' 8 := same.loadIhl (by omega)
  refine ⟨hihl, ?_⟩
  intro hinside
  change 8 + loadIhl icmp 8 * 4 + 8 ≤ cc at hinside
  rw [loadQuoted4, loadQuoted4, ← hihl, same.load32 (by omega : 8 + 16 + 4 ≤ cc),
    same _ (by omega : 8 + loadIhl icmp 8 * 4 < cc),
    same.load16 (by omega : 8 + loadIhl icmp 8 * 4 + 4 + 2 ≤ cc),
    same.load16 (by omega : 8 + loadIhl icmp 8 * 4 + 6 + 2 ≤ cc)]

/-- What is read of two buffers is the same, if there is a whole header behind the IP header. -/
theorem packet4_same {m : Received} {buf buf' : Buffer} (same : SameTo m.cc buf buf')
    (header : loadIhl buf 0 * 4 + 8 ≤ m.cc) :
    SamePacket4 (packet4 .raw m buf) (packet4 .raw m buf') := by
  have hihl : loadIhl buf 0 = loadIhl buf' 0 := same.loadIhl (by omega)
  have hcc : (m.cc : Int) - (loadIhl buf 0 * 4 : Nat) = (m.cc - loadIhl buf 0 * 4 : Nat) := by
    omega
  have hicmp : SameTo (m.cc - loadIhl buf 0 * 4) (fun i => buf (loadIhl buf 0 * 4 + i))
      (fun i => buf' (loadIhl buf 0 * 4 + i)) := same.shift (by omega)
  simp only [packet4, if_true, ← hihl, hcc, Int.toNat_natCast]
  constructor
  · rfl
  · rw [hicmp.memory (by omega : 0 + (m.cc - loadIhl buf 0 * 4) ≤ _)]
    exact loadReply_same hicmp (by omega) _ m
  · exact hicmp 0 (by omega)
  · exact hicmp.load16 (by omega)
  · intro hquoted
    change (8 + 20 + 8 : Int) ≤ (m.cc - loadIhl buf 0 * 4 : Nat) at hquoted
    obtain ⟨hsame, hwhole⟩ := loadQuoted4_same hicmp (by omega)
    refine ⟨hsame, fun hinside => hwhole ?_⟩
    change (8 : Int) + (loadQuoted4 fun i => buf (loadIhl buf 0 * 4 + i)).ihl * 4 + 8 ≤
      (m.cc - loadIhl buf 0 * 4 : Nat) at hinside
    omega

theorem packet4_short {m : Received} {buf : Buffer} (short : m.cc < loadIhl buf 0 * 4 + 8)
    (rts : PingRts) : outcome4 rts (packet4 .raw m buf) = (true, rts) := by
  have hcc : (packet4 .raw m buf).reply.cc < 8 := by
    change (m.cc : Int) - (loadIhl buf 0 * 4 : Nat) < 8
    omega
  rw [outcome4, if_pos (.inl hcc)]

/-- `parse_reply` sees no difference between two buffers that agree on what was received. -/
theorem stale_bytes_ipv4 (prAddr : PrAddr) (s : Settings) (rts : PingRts) (oldRr : List UInt8)
    (m : Received) (buf buf' : Buffer) (same : SameTo m.cc buf buf') :
    let parsed := ping4ParseReply prAddr s .raw rts oldRr (packet4 .raw m buf)
    let parsed' := ping4ParseReply prAddr s .raw rts oldRr (packet4 .raw m buf')
    parsed.notOurs = parsed'.notOurs ∧ parsed.rts = parsed'.rts := by
  have houtcome : outcome4 rts (packet4 .raw m buf) = outcome4 rts (packet4 .raw m buf') := by
    by_cases hempty : m.cc = 0
    · rw [packet4_short (by omega), packet4_short (by omega)]
    · have hihl : loadIhl buf 0 = loadIhl buf' 0 := same.loadIhl (by omega)
      by_cases hheader : loadIhl buf 0 * 4 + 8 ≤ m.cc
      · exact outcome4_same (packet4_same same hheader) rts
      · rw [packet4_short (by omega), packet4_short (by omega)]
  rw [← ping4_outcome prAddr s rts oldRr, ← ping4_outcome prAddr s rts oldRr,
    Prod.mk.injEq] at houtcome
  exact houtcome

def noHost : HostText := ⟨.empty, .empty⟩

/-- An echo reply without data. -/
def bareReply : Buffer := fun i => if i = 0 then 0x45 else 0

/-- The same, written over a buffer of ones. -/
def reusedBuffer : Buffer := fun i => if i < 28 then bareReply i else 0xff

theorem stale_bytes_ipv4_bare :
    bareReply 28 ≠ reusedBuffer 28 ∧
    let m : Received := { cc := 28, host := noHost }
    let parsed :=
      ping4ParseReply (fun _ => noHost) {} .raw { ident := 0 } [] (packet4 .raw m bareReply)
    let parsed' :=
      ping4ParseReply (fun _ => noHost) {} .raw { ident := 0 } [] (packet4 .raw m reusedBuffer)
    parsed.notOurs = parsed'.notOurs ∧ parsed.rts = parsed'.rts :=
  ⟨by decide, stale_bytes_ipv4 _ {} { ident := 0 } [] { cc := 28, host := noHost } bareReply
    reusedBuffer fun _ hi => (if_pos hi).symm⟩

end Coping.StaleBytes
