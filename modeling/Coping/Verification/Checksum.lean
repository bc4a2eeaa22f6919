import Coping.Ping.Probe

/-!
# The checksum of a probe

Every packet that `ping4_send_probe` hands to the kernel verifies, and its checksum
field holds what checksumming the finished packet with a zero field gives. Without
`opt_latency` the checksum is taken of the packet with a zeroed timestamp and then
continued, from its complement, with the timestamp: the folded sum of a part stands
for the part.
-/

namespace Coping.Checksum

open OnesComplement

/-! ## Words of a packet -/

@[simp] theorem le16_length (x : UInt16) : (le16 x).length = 2 := rfl

theorem wordSum_le16 (x : UInt16) : wordSum (le16 x) = x.toNat := by
  have hlt := x.toNat_lt
  have hlow : x.toUInt8.toNat = x.toNat % 256 := UInt16.toNat_toUInt8 x
  have hhigh : (x >>> 8).toUInt8.toNat = x.toNat / 256 := by
    have hshift : (x >>> 8).toNat = x.toNat / 256 := by
      rw [UInt16.toNat_shiftRight, Nat.shiftRight_eq_div_pow]
      rfl
    rw [UInt16.toNat_toUInt8, hshift]
    omega
  change word x.toUInt8 (x >>> 8).toUInt8 + 0 = _
  rw [word, hlow, hhigh]
  omega

theorem wordSum_zeros (n : Nat) : wordSum (List.replicate (2 * n) 0) = 0 := by
  induction n with
  | zero => rfl
  | succ n ih =>
      change word 0 0 + wordSum (List.replicate (2 * n) 0) = 0
      rw [ih]
      rfl

/-- The `int` accumulator of `in_cksum` does not overflow. -/
theorem accumulator_lt {bytes : List UInt8} (small : bytes.length ≤ MAXPACKET) (csum : UInt16) :
    csum.toNat + wordSum bytes < 0x7FFFFFFF := by
  have hsum := wordSum_le bytes
  have hcsum := csum.toNat_lt
  have hmax : bytes.length ≤ 65535 := small
  omega

theorem inCksum_toNat (bytes : List UInt8) (csum : UInt16) :
    (inCksum bytes bytes.length csum).toNat = 0xFFFF - fold (csum.toNat + wordSum bytes) := by
  have hlt := fold_lt (csum.toNat + wordSum bytes)
  rw [inCksum, List.take_length, UInt16.toNat_not, UInt16.toNat_ofNat', Nat.mod_eq_of_lt hlt]
  rfl

/-- The field makes the sum of the packet the other zero. -/
theorem inCksum_verifies {front back : List UInt8} (even : Even front.length)
    (small : (front ++ [0, 0] ++ back).length ≤ MAXPACKET) {packet : List UInt8} {checksum : UInt16}
    (built : packet = front ++ le16 checksum ++ back)
    (stored : checksum = inCksum (front ++ [0, 0] ++ back) (front ++ [0, 0] ++ back).length 0) :
    inCksum packet packet.length 0 = 0 := by
  have hsum : ∀ field : List UInt8, field.length = 2 →
      wordSum (front ++ field ++ back) = wordSum front + wordSum field + wordSum back := by
    intro field hlength
    have heven : Even (front ++ field).length := by
      rw [List.length_append, hlength]
      exact even.add even_two
    rw [wordSum_append heven, wordSum_append even]
  have hzero : wordSum [0, 0] = 0 := rfl
  have hrest := accumulator_lt small 0
  rw [hsum [0, 0] rfl, hzero, Nat.add_zero, UInt16.toNat_zero, Nat.zero_add] at hrest
  have hchecksum := inCksum_toNat (front ++ [0, 0] ++ back) 0
  rw [← stored, hsum [0, 0] rfl, hzero, Nat.add_zero, UInt16.toNat_zero, Nat.zero_add]
    at hchecksum
  rw [← UInt16.toNat_inj, inCksum_toNat, built, hsum _ (le16_length checksum), wordSum_le16,
    hchecksum, UInt16.toNat_zero, Nat.zero_add]
  have hwhole := @fold_add_complement (wordSum front + wordSum back) (by omega)
  have hregroup : wordSum front + (0xFFFF - fold (wordSum front + wordSum back)) + wordSum back =
      wordSum front + wordSum back + (0xFFFF - fold (wordSum front + wordSum back)) := by omega
  rw [hregroup, hwhole]

/-- Continuing from the complement of a checksum is checksumming everything. -/
theorem inCksum_continue {part rest whole : List UInt8} (small : whole.length ≤ MAXPACKET)
    (split : wordSum whole = wordSum part + wordSum rest) :
    inCksum rest rest.length (~~~inCksum part part.length 0) = inCksum whole whole.length 0 := by
  have hbound := accumulator_lt small 0
  rw [UInt16.toNat_zero, Nat.zero_add, split] at hbound
  have hlt := fold_lt (wordSum part)
  have hpart : (~~~inCksum part part.length 0).toNat = fold (wordSum part) := by
    rw [UInt16.toNat_not, inCksum_toNat, UInt16.toNat_zero, Nat.zero_add]
    change 65536 - 1 - (65535 - _) = _
    omega
  have hfolded := @fold_fold_add (wordSum part) (wordSum rest) (by omega)
  rw [← UInt16.toNat_inj, inCksum_toNat, inCksum_toNat, hpart, UInt16.toNat_zero, Nat.zero_add,
    split, hfolded]

/-! ## The packet in memory -/

theorem write_bytes {p : Outpack} {front old back new : List UInt8} {offset : Nat}
    (width : front.length = offset) (split : p.bytes = front ++ old ++ back)
    (same : new.length = old.length) : (p.write offset new).bytes = front ++ new ++ back := by
  have hsize := p.size
  rw [split] at hsize
  have hfront : p.bytes.take offset = front := by
    rw [split, List.append_assoc, ← width, List.take_left]
  have hback : p.bytes.drop (offset + new.length) = back := by
    rw [split, same, ← width, ← List.length_append, List.drop_left]
  change (p.bytes.take offset ++ new ++ p.bytes.drop (offset + new.length)).take MAXPACKET = _
  rw [hfront, hback]
  refine List.take_of_length_le (Nat.le_of_eq ?_)
  simpa [same] using hsize

/-- The identifier and the sequence number in the header. -/
def probeId (rts : PingRts) : List UInt8 :=
  le16 (UInt16.ofInt rts.ident) ++ be16 (low16 (rts.ntransmitted + 1))

def checkedHeader (checksum : List UInt8) (rts : PingRts) : List UInt8 :=
  [ICMP_ECHO, 0] ++ checksum ++ probeId rts

theorem header_bytes (rts : PingRts) :
    (rts.outpack.write 0 (echoHeader ICMP_ECHO 0 (UInt16.ofInt rts.ident)
      (low16 (rts.ntransmitted + 1)))).bytes =
      checkedHeader [0, 0] rts ++ [] ++ rts.outpack.bytes.drop 8 := by
  have hsize := rts.outpack.size
  have hwrite := @write_bytes rts.outpack [] (rts.outpack.bytes.take 8)
    (rts.outpack.bytes.drop 8) (checkedHeader [0, 0] rts) 0 rfl
    (List.take_append_drop 8 _).symm (by rw [List.length_take, hsize]; rfl)
  simpa [checkedHeader, probeId, echoHeader, le16] using hwrite

/-- The memory holds a packet with this checksum field and payload. -/
def Holds (p : Outpack) (rts : PingRts) (checksum payload : List UInt8) : Prop :=
  ∃ tail, p.bytes = [ICMP_ECHO, 0] ++ checksum ++ (probeId rts ++ payload) ++ tail

theorem Holds.write_checksum {p : Outpack} {rts : PingRts} {checksum payload : List UInt8}
    (h : Holds p rts checksum payload) (field : checksum.length = 2) (x : UInt16) :
    Holds (p.write 2 (le16 x)) rts (le16 x) payload := by
  obtain ⟨tail, htail⟩ := h
  refine ⟨tail, ?_⟩
  rw [List.append_assoc] at htail ⊢
  exact write_bytes rfl htail ((le16_length x).trans field.symm)

theorem Holds.write_stamp {p : Outpack} {rts : PingRts} {checksum old new rest : List UInt8}
    (h : Holds p rts checksum (old ++ rest)) (field : checksum.length = 2)
    (same : new.length = old.length) : Holds (p.write 8 new) rts checksum (new ++ rest) := by
  obtain ⟨tail, htail⟩ := h
  refine ⟨tail, ?_⟩
  have hwidth : ([ICMP_ECHO, 0] ++ checksum ++ probeId rts).length = 8 := by
    rw [List.length_append, List.length_append, field]
    rfl
  have hsplit : p.bytes = [ICMP_ECHO, 0] ++ checksum ++ probeId rts ++ old ++ (rest ++ tail) := by
    rw [htail]
    simp only [List.append_assoc]
  rw [write_bytes hwidth hsplit same]
  simp only [List.append_assoc]

theorem Holds.take {p : Outpack} {rts : PingRts} {checksum payload : List UInt8}
    (h : Holds p rts checksum payload) (field : checksum.length = 2) :
    p.bytes.take (payload.length + 8) = [ICMP_ECHO, 0] ++ checksum ++ (probeId rts ++ payload) := by
  obtain ⟨tail, htail⟩ := h
  rw [htail]
  apply List.take_left'
  simp [field, probeId, le16, be16]
  omega

theorem inCksum_take (bytes : List UInt8) (len : Nat) (csum : UInt16) :
    inCksum bytes len csum = inCksum (bytes.take len) (bytes.take len).length csum := by
  rw [inCksum, inCksum, List.take_length]

/-- The packet with a zero checksum field, and the one with its checksum stored. -/
def bare (rts : PingRts) (payload : List UInt8) : List UInt8 :=
  [ICMP_ECHO, 0] ++ [0, 0] ++ (probeId rts ++ payload)

theorem bare_length (rts : PingRts) (payload : List UInt8) :
    (bare rts payload).length = payload.length + 8 := by
  simp [bare, probeId, le16, be16]

theorem Holds.checksum {p : Outpack} {rts : PingRts} {payload : List UInt8}
    (h : Holds p rts [0, 0] payload) :
    inCksum p.bytes (payload.length + 8) 0 =
      inCksum (bare rts payload) (bare rts payload).length 0 := by
  rw [inCksum_take, h.take rfl]
  rfl

/-- The timestamp adds its own words. -/
theorem wordSum_bare (rts : PingRts) {stamp : List UInt8} (even : Even stamp.length)
    (rest : List UInt8) :
    wordSum (bare rts (stamp ++ rest)) = wordSum (bare rts rest) + wordSum stamp := by
  have hhead : ∀ payload, wordSum (bare rts payload) =
      wordSum ([ICMP_ECHO, 0] ++ [0, 0] ++ probeId rts) + wordSum payload := by
    intro payload
    rw [bare, ← List.append_assoc]
    exact wordSum_append ⟨4, rfl⟩ payload
  rw [hhead, hhead, wordSum_append even]
  omega

/-- `echo4` leaves a packet whose field is the checksum of the bare packet. -/
theorem echo4_holds (rts : PingRts) (now : Timeval) (small : rts.datalen ≤ 65527)
    (timing : rts.timing = decide (16 ≤ rts.datalen)) :
    ∃ payload, payload.length = rts.datalen ∧
      Holds (echo4 rts now) rts (le16 (inCksum (bare rts payload) (bare rts payload).length 0))
        payload := by
  obtain ⟨header, hheader⟩ : ∃ p, p = rts.outpack.write 0 (echoHeader ICMP_ECHO 0
      (UInt16.ofInt rts.ident) (low16 (rts.ntransmitted + 1))) := ⟨_, rfl⟩
  obtain ⟨old, hold⟩ : ∃ old, old = (rts.outpack.bytes.drop 8).take rts.datalen := ⟨_, rfl⟩
  have hlength : old.length = rts.datalen := by
    have hsize : rts.outpack.bytes.length = 65535 := rts.outpack.size
    rw [hold, List.length_take, List.length_drop, hsize]
    omega
  have hholds : Holds header rts [0, 0] old := by
    refine ⟨(rts.outpack.bytes.drop 8).drop rts.datalen, ?_⟩
    rw [hheader, header_bytes, checkedHeader, hold, List.append_nil, List.append_assoc _ (_ ++ _),
      List.append_assoc (probeId rts), List.take_append_drop, List.append_assoc]
  simp only [echo4]
  rw [← hheader]
  cases htiming : rts.timing with
  | false =>
      refine ⟨old, hlength, ?_⟩
      simp only [Bool.false_eq_true, if_false, false_and]
      rw [← hlength, hholds.checksum]
      exact hholds.write_checksum rfl _
  | true =>
      have htimed : 16 ≤ rts.datalen := by simpa [htiming] using timing
      obtain ⟨rest, hrest⟩ : ∃ rest, rest = old.drop 16 := ⟨_, rfl⟩
      have hsplit : old = old.take 16 ++ rest := by rw [hrest, List.take_append_drop]
      have htaken : (old.take 16).length = 16 := by
        rw [List.length_take]
        omega
      rw [hsplit] at hholds
      have hstamped : ∀ stamp : List UInt8, stamp.length = 16 →
          (stamp ++ rest).length = rts.datalen ∧
            Holds (header.write 8 stamp) rts [0, 0] (stamp ++ rest) := by
        intro stamp hstamp
        refine ⟨?_, hholds.write_stamp rfl (hstamp.trans htaken.symm)⟩
        rw [List.length_append, hrest, List.length_drop]
        omega
      obtain ⟨hnow, hheld⟩ := hstamped now.bytes now.bytes_length
      refine ⟨now.bytes ++ rest, hnow, ?_⟩
      cases hlatency : rts.optLatency with
      | true =>
          simp only [if_true, not_true_eq_false, and_false, if_false]
          rw [← hnow, hheld.checksum]
          exact hheld.write_checksum rfl _
      | false =>
          obtain ⟨hzeros, hzeroed⟩ := hstamped (List.replicate 16 0) List.length_replicate
          simp only [if_true, Bool.false_eq_true, not_false_eq_true, and_self, if_false]
          rw [← hzeros, hzeroed.checksum]
          have hcontinue := @inCksum_continue (bare rts (List.replicate 16 0 ++ rest)) now.bytes
            (bare rts (now.bytes ++ rest)) (by rw [bare_length, hnow, MAXPACKET]; omega)
            (by
              have heven : Even (List.replicate 16 (0 : UInt8)).length := by
                rw [List.length_replicate]
                exact ⟨8, rfl⟩
              rw [wordSum_bare rts (by rw [now.bytes_length]; exact ⟨8, rfl⟩),
                wordSum_bare rts heven, wordSum_zeros 8, Nat.add_zero])
          rw [now.bytes_length] at hcontinue
          rw [hcontinue]
          have hfirst := hzeroed.write_checksum rfl (inCksum
            (bare rts (List.replicate 16 0 ++ rest))
            (bare rts (List.replicate 16 0 ++ rest)).length 0)
          exact (hfirst.write_stamp (le16_length _)
            (now.bytes_length.trans List.length_replicate.symm)).write_checksum (le16_length _) _

/-! ## The packet on its way -/

/-- The packet with a zero in its checksum field. -/
def zeroChecksum (packet : List UInt8) : List UInt8 := packet.take 2 ++ [0, 0] ++ packet.drop 4

def checksumField (packet : List UInt8) : List UInt8 := (packet.drop 2).take 2

/-- Every probe verifies, and the two ways of checksumming it store the same bits. -/
theorem probe_checksum (rts : PingRts) (now : Timeval) (small : rts.datalen ≤ 65527)
    (timing : rts.timing = decide (16 ≤ rts.datalen)) :
    inCksum (ping4SendProbe rts now).2 (rts.datalen + 8) 0 = 0 ∧
      checksumField (ping4SendProbe rts now).2 =
        le16 (inCksum (zeroChecksum (ping4SendProbe rts now).2) (rts.datalen + 8) 0) := by
  obtain ⟨payload, hlength, hholds⟩ := echo4_holds rts now small timing
  obtain ⟨checksum, hchecksum⟩ : ∃ checksum, checksum = inCksum (bare rts payload)
    (bare rts payload).length 0 := ⟨_, rfl⟩
  rw [← hchecksum] at hholds
  have hpacket : (ping4SendProbe rts now).2 =
      [ICMP_ECHO, 0] ++ le16 checksum ++ (probeId rts ++ payload) := by
    change (echo4 rts now).bytes.take (rts.datalen + 8) = _
    rw [← hlength]
    exact hholds.take rfl
  have hwidth : (bare rts payload).length = rts.datalen + 8 := by rw [bare_length, hlength]
  have hsame : ([ICMP_ECHO, 0] ++ le16 checksum ++ (probeId rts ++ payload)).length =
      rts.datalen + 8 := hwidth
  rw [hpacket]
  constructor
  · rw [← hsame]
    refine inCksum_verifies ⟨1, rfl⟩ ?_ rfl hchecksum
    change (bare rts payload).length ≤ MAXPACKET
    rw [hwidth, MAXPACKET]
    omega
  · change le16 checksum = le16 (inCksum (bare rts payload) (rts.datalen + 8) 0)
    rw [hchecksum, hwidth]

/-- The default probe: 56 bytes of payload with a timestamp. -/
theorem probe_checksum_default :
    inCksum (ping4SendProbe { timing := true } { tvSec := 1700000000 }).2 64 0 = 0 ∧
      checksumField (ping4SendProbe { timing := true } { tvSec := 1700000000 }).2 =
        le16 (inCksum (zeroChecksum
          (ping4SendProbe { timing := true } { tvSec := 1700000000 }).2) 64 0) :=
  probe_checksum { timing := true } { tvSec := 1700000000 } (by decide) (by decide)

end Coping.Checksum
