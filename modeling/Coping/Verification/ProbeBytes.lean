import Coping.Ping.Wire

/-!
# The bytes of a probe

The packet buffer is written in pieces: the header, the time, and for IPv4 the checksum, more
than once. `slice` reads a piece back; a write is seen by what lies inside it and by nothing
that lies apart from it.
-/

namespace Coping.ProbeBytes

open CInt

/-- Bytes in a row. -/
def slice (p : Outpack) (offset n : Nat) : List UInt8 := (p.bytes.drop offset).take n

section Slices

variable {p : Outpack} {bs : List UInt8} {offset a n : Nat}

theorem write_eq (fits : offset + bs.length ≤ MAXPACKET) :
    (p.write offset bs).bytes = p.bytes.take offset ++ bs ++ p.bytes.drop (offset + bs.length) := by
  have hsize := p.size
  apply List.take_of_length_le
  simp only [List.length_append, List.length_take, List.length_drop]
  omega

theorem slice_getElem? (i : Nat) :
    (slice p a n)[i]? = if i < n then p.bytes[a + i]? else none := by
  rw [slice, List.getElem?_take, List.getElem?_drop]

theorem slice_write_inside (lower : offset ≤ a) (upper : a + n ≤ offset + bs.length)
    (fits : offset + bs.length ≤ MAXPACKET) :
    slice (p.write offset bs) a n = (bs.drop (a - offset)).take n := by
  have hsize := p.size
  apply List.ext_getElem?
  intro i
  rw [slice_getElem?, List.getElem?_take, List.getElem?_drop]
  split
  next hi =>
    rw [write_eq fits, getElem?_written (by omega), if_pos (by omega)]
    congr 1
    omega
  · rfl

theorem slice_write_apart (apart : a + n ≤ offset ∨ offset + bs.length ≤ a)
    (fits : offset + bs.length ≤ MAXPACKET) : slice (p.write offset bs) a n = slice p a n := by
  have hsize := p.size
  apply List.ext_getElem?
  intro i
  rw [slice_getElem?, slice_getElem?]
  split
  next hi => rw [write_eq fits, getElem?_written (by omega), if_neg (by omega)]
  · rfl

theorem slice_take {m : Nat} (inside : a + n ≤ m) :
    ((p.bytes.take m).drop a).take n = slice p a n := by
  rw [slice, List.drop_take, List.take_take, Nat.min_eq_left (by omega)]

end Slices

/-! ## Echo requests -/

/-- The type of an echo request. -/
def requestType (family : Family) : UInt8 :=
  match family with
  | .inet => ICMP_ECHO
  | .inet6 => ICMP6_ECHO_REQUEST

/-- The packet is the echo request with this number, sent at `now`. -/
structure Request (family : Family) (rts : PingRts) (number : Nat) (now : Timeval)
    (packet : List UInt8) : Prop where
  length : packet.length = rts.datalen + 8
  type : packet.take 1 = [requestType family]
  id : (packet.drop 4).take 2 = le16 (UInt16.ofInt rts.ident)
  sequence : (packet.drop 6).take 2 = be16 (low16 number)
  stamp : rts.timing = true → (packet.drop 8).take 16 = now.bytes
  data : packet.drop 24 = slice rts.outpack 24 (rts.datalen - 16)

/-- The buffer holds the header of the probe, and the data as they are. -/
structure Headed (family : Family) (rts : PingRts) (p : Outpack) : Prop where
  type : slice p 0 1 = [requestType family]
  id : slice p 4 2 = le16 (UInt16.ofInt rts.ident)
  sequence : slice p 6 2 = be16 (low16 (rts.ntransmitted + 1))
  data : ∀ n, slice p 24 n = slice rts.outpack 24 n

/-- The probe is complete. -/
structure Built (family : Family) (rts : PingRts) (now : Timeval) (p : Outpack) : Prop
    extends Headed family rts p where
  stamp : rts.timing = true → slice p 8 16 = now.bytes

section Pieces

variable {family : Family} {rts : PingRts} {now : Timeval} {p : Outpack}

theorem Built.request (h : Built family rts now p) (small : rts.datalen ≤ 65527)
    (timing : rts.timing = true → 16 ≤ rts.datalen) :
    Request family rts (rts.ntransmitted + 1) now (p.bytes.take (rts.datalen + 8)) := by
  have hsize : p.bytes.length = 65535 := p.size
  constructor
  · exact List.length_take_of_le (by omega)
  · have htake := @slice_take p 0 1 (rts.datalen + 8) (by omega)
    rw [List.drop_zero] at htake
    rw [htake, h.type]
  · rw [slice_take (by omega), h.id]
  · rw [slice_take (by omega), h.sequence]
  · intro htiming
    have htimed := timing htiming
    rw [slice_take (by omega), h.stamp htiming]
  · rw [List.drop_take, ← h.data, slice]
    congr 1

theorem Headed.header (family : Family) (rts : PingRts) :
    Headed family rts (rts.outpack.write 0 (echoHeader (requestType family) 0
      (UInt16.ofInt rts.ident) (low16 (rts.ntransmitted + 1)))) := by
  have hfits : 0 + (echoHeader (requestType family) 0 (UInt16.ofInt rts.ident)
      (low16 (rts.ntransmitted + 1))).length ≤ MAXPACKET := by
    show 0 + 8 ≤ 65535
    decide
  refine ⟨?_, ?_, ?_, fun n => ?_⟩
  · exact slice_write_inside (by decide) (by show 0 + 1 ≤ 0 + 8; decide) hfits
  · exact slice_write_inside (by decide) (by show 4 + 2 ≤ 0 + 8; decide) hfits
  · exact slice_write_inside (by decide) (by show 6 + 2 ≤ 0 + 8; decide) hfits
  · exact slice_write_apart (.inr (by show 0 + 8 ≤ 24; decide)) hfits

/-- The field of the checksum and the place of the time are apart from the rest. -/
theorem Headed.write (h : Headed family rts p) {offset : Nat} {bs : List UInt8}
    (place : offset = 2 ∧ bs.length = 2 ∨ offset = 8 ∧ bs.length = 16) :
    Headed family rts (p.write offset bs) := by
  have hfits : offset + bs.length ≤ 65535 := by omega
  refine ⟨?_, ?_, ?_, fun n => ?_⟩
  · rw [slice_write_apart (by omega) hfits, h.type]
  · rw [slice_write_apart (by omega) hfits, h.id]
  · rw [slice_write_apart (by omega) hfits, h.sequence]
  · rw [slice_write_apart (by omega) hfits, h.data]

theorem Headed.stamped (h : Headed family rts p) : Built family rts now (p.write 8 now.bytes) where
  toHeaded := h.write (.inr ⟨rfl, now.bytes_length⟩)
  stamp _ := by
    have hlength := now.bytes_length
    rw [slice_write_inside (by decide) (by omega) (by show _ ≤ 65535; omega), Nat.sub_self,
      List.drop_zero, List.take_of_length_le (by omega)]

theorem Built.checked (h : Built family rts now p) (checksum : UInt16) :
    Built family rts now (p.write 2 (le16 checksum)) where
  toHeaded := h.toHeaded.write (.inl ⟨rfl, rfl⟩)
  stamp htiming := by
    rw [slice_write_apart (.inr (by show 2 + 2 ≤ 8; decide)) (by show 2 + 2 ≤ 65535; decide),
      h.stamp htiming]

theorem Headed.untimed (h : Headed family rts p) (timing : rts.timing = false) :
    Built family rts now p where
  toHeaded := h
  stamp htiming := absurd (timing.symm.trans htiming) (by decide)

end Pieces

theorem built_echo4 (rts : PingRts) (now : Timeval) : Built .inet rts now (echo4 rts now) := by
  have hheader := Headed.header .inet rts
  cases htiming : rts.timing with
  | false =>
      simp only [echo4, htiming, Bool.false_eq_true, if_false, false_and]
      exact (hheader.untimed htiming).checked _
  | true =>
      cases hlatency : rts.optLatency with
      | true =>
          simp only [echo4, htiming, hlatency, if_true, not_true_eq_false, and_false, if_false]
          exact hheader.stamped.checked _
      | false =>
          simp only [echo4, htiming, hlatency, if_true, Bool.false_eq_true, if_false,
            not_false_eq_true, and_self]
          have hzeroed := hheader.write (.inr ⟨rfl, @List.length_replicate _ 16 (0 : UInt8)⟩)
          exact (hzeroed.write (.inl ⟨rfl, rfl⟩)).stamped.checked _

theorem built_buildEcho (rts : PingRts) (now : Timeval) :
    Built .inet6 rts now (buildEcho rts now).1 := by
  have hheader := Headed.header .inet6 rts
  cases htiming : rts.timing with
  | false =>
      simp only [buildEcho, htiming, Bool.false_eq_true, if_false]
      exact hheader.untimed htiming
  | true =>
      simp only [buildEcho, htiming, if_true]
      exact hheader.stamped

/-- The family sends echo requests: always, or when node information is not asked for. -/
def Echoes (family : Family) (rts : PingRts) : Prop := family = .inet ∨ rts.ni.query < 0

/-- What `send_probe` hands to the kernel is the front of the buffer it leaves behind. -/
theorem sendProbe_echo {family : Family} {rts : PingRts} (echoes : Echoes family rts)
    (now : Timeval) : ∃ p, Built family rts now p ∧ (family.sendProbe rts now).1.outpack = p ∧
      (family.sendProbe rts now).1.datalen = rts.datalen ∧
        (family.sendProbe rts now).2 = p.bytes.take (rts.datalen + 8) := by
  cases family with
  | inet => exact ⟨_, built_echo4 rts now, rfl, rfl, rfl⟩
  | inet6 =>
      have hecho : niqueryIsEnabled rts.ni = false := by
        obtain h | h := echoes
        · cases h
        · simpa [niqueryIsEnabled] using h
      refine ⟨_, built_buildEcho rts now, ?_⟩
      simp only [Family.sendProbe, ping6SendProbe, hecho, Bool.false_eq_true, if_false, true_and]
      rfl

/-! ## Reading it back -/

/-- Base 256 digits are read as the number they are of, as far as they go. -/
theorem leNat_digits (count n : Nat) :
    leNat ((List.range count).map fun i => UInt8.ofNat (n / 256 ^ i)) = n % 256 ^ count := by
  induction count generalizing n with
  | zero => exact (Nat.mod_one n).symm
  | succ count ih =>
      have hnext : (fun i => UInt8.ofNat (n / 256 ^ i)) ∘ Nat.succ =
          fun i => UInt8.ofNat (n / 256 / 256 ^ i) := by
        funext i
        rw [Function.comp_apply, Nat.succ_eq_add_one, Nat.pow_succ', Nat.div_div_eq_div_mul]
      have hmod : n % (256 * 256 ^ count) = n % 256 + 256 * (n / 256 % 256 ^ count) :=
        Nat.mod_mul
      rw [List.range_succ_eq_map, List.map_cons, List.map_map, hnext, leNat, ih, Nat.pow_zero,
        Nat.div_one, UInt8.toNat_ofNat', Nat.pow_succ' (n := count), hmod]

theorem toInt64_leNat {x : Int} (h : InLong x) : toInt64 (leNat (le64 x)) = x := by
  have hdigits : (leNat (le64 x) : Int) = x % 2 ^ 64 := by
    rw [le64, leNat_digits, Nat.mod_eq_of_lt (by omega)]
    omega
  obtain ⟨hlower, hupper⟩ := h
  rw [hdigits, toInt64]
  simp only [longMax] at hupper
  omega

theorem loadTimeval_bytes {icmp : Buffer} {offset : Nat} {tv : Timeval} (sec : InLong tv.tvSec)
    (usec : InLong tv.tvUsec) (h : memory icmp offset 16 = tv.bytes) :
    loadTimeval icmp offset = tv := by
  have hsplit := memory_add icmp offset 8 8
  rw [h, Timeval.bytes] at hsplit
  obtain ⟨hsec, husec⟩ := List.append_inj hsplit (by rw [le64_length, length_memory])
  rw [loadTimeval, ← hsec, ← husec, toInt64_leNat sec, toInt64_leNat usec]

theorem memory_two (icmp : Buffer) (offset : Nat) :
    memory icmp offset 2 = [icmp offset, icmp (offset + 1)] := rfl

theorem load16_le16 {icmp : Buffer} {offset : Nat} {x : UInt16}
    (h : memory icmp offset 2 = le16 x) : load16 icmp offset = x := by
  have hbytes := be16_eq x
  rw [be16] at hbytes
  rw [memory_two, le16] at h
  obtain ⟨hlow, hhigh⟩ := List.cons_eq_cons.mp h
  obtain ⟨hhigh', hlow'⟩ := List.cons_eq_cons.mp hbytes
  rw [load16, hlow, (List.cons_eq_cons.mp hhigh).1, hhigh', (List.cons_eq_cons.mp hlow').1]
  exact ByteOrder.word16_bytes x

theorem ntohs_load16_be16 {icmp : Buffer} {offset : Nat} {x : UInt16}
    (h : memory icmp offset 2 = be16 x) : ntohs (load16 icmp offset) = x := by
  rw [memory_two, be16_eq] at h
  obtain ⟨hhigh, hlow⟩ := List.cons_eq_cons.mp h
  rw [load16, hhigh, (List.cons_eq_cons.mp hlow).1, ntohs_load16, ByteOrder.word16_bytes]

/-- Bytes in the middle of an area. -/
theorem memory_middle (cp : Buffer) {start a n m : Nat} (inside : a + n ≤ m) :
    ((memory cp start m).drop a).take n = memory cp (start + a) n := by
  obtain ⟨rest, rfl⟩ : ∃ rest, m = a + (n + rest) := ⟨m - (a + n), by omega⟩
  rw [memory_add, List.drop_left' (length_memory cp start a), memory_add,
    List.take_left' (length_memory cp (start + a) n)]

theorem memory_getD {xs : List UInt8} {start n : Nat} (inside : start + n ≤ xs.length) :
    memory (fun i => (xs[i]?).getD 0) start n = (xs.drop start).take n := by
  apply List.ext_getElem?
  intro i
  rw [memory, List.getElem?_map, List.getElem?_take, List.getElem?_drop]
  split
  next hi =>
    rw [List.getElem?_range hi, Option.map_some, List.getElem?_eq_getElem (by omega),
      Option.getD_some]
  next hi =>
    rw [List.getElem?_eq_none (by rw [List.length_range]; omega)]
    rfl

end Coping.ProbeBytes
