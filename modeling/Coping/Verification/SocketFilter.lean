import Coping.Ping.Filter
import Coping.Verification.StaleBytes6

/-!
# The socket filters and parse_reply

A filter lets an echo reply pass if its identifier is ours, on a host of either byte order, and
everything that is no echo reply. What it drops `parse_reply` would not have counted.
-/

namespace Coping.SocketFilter

open ClassicBpf

/-- A byte of the packet. -/
theorem memory_getElem? (buf : Buffer) {cc i : Nat} (inside : i < cc) :
    (memory buf 0 cc)[i]? = some (buf i) := by
  rw [memory, List.getElem?_map, List.getElem?_range inside, Option.map_some, Nat.zero_add]

/-- The identifier of a packet as a number is the one that was patched in if they are the same in
memory. -/
theorem word16_eq_iff (order : ByteOrder) (b0 b1 : UInt8) (ident : UInt16) :
    (ByteOrder.word16 b0 b1).toUInt32 = (order.htons ident).toUInt32 ↔
      order.load16 b0 b1 = ident := by
  rw [← order.htons_load16]
  constructor
  · intro h
    have hhtons : order.htons (order.load16 b0 b1) = order.htons ident := UInt16.toUInt32_inj.mp h
    rw [← order.htons_htons (order.load16 b0 b1), hhtons, order.htons_htons]
  · intro h
    rw [h]

theorem isOurs_iff {rts : PingRts} {ident : UInt16} (own : rts.ident = ident.toNat) (id : UInt16) :
    isOurs rts .raw id = true ↔ id = ident := by
  rw [isOurs, own, Bool.or_eq_true, or_iff_right (by decide), decide_eq_true_iff, Int.ofNat_inj,
    UInt16.toNat_inj]

theorem identInsn_eq {rts : PingRts} {ident : UInt16} (own : rts.ident = ident.toNat)
    (order : ByteOrder) : identInsn order rts = .jeq (order.htons ident).toUInt32 0 1 := by
  have hlow : UInt16.ofInt rts.ident = ident := by
    have hlt := ident.toNat_lt
    apply UInt16.toNat_inj.mp
    rw [own, UInt16.ofInt, UInt16.toNat_ofNat']
    omega
  rw [identInsn, hlow]

/-- The size of the IP header, as the filter computes it. -/
theorem msh_toNat (b : UInt8) : ((b.toUInt32 &&& 0xf) <<< 2).toNat = b.toNat % 16 * 4 := by
  have hlow : (b.toUInt32 &&& 0xf).toNat = b.toNat % 16 := by
    rw [UInt32.toNat_and, UInt8.toNat_toUInt32]
    exact Nat.and_two_pow_sub_one_eq_mod b.toNat 4
  rw [UInt32.toNat_shiftLeft, hlow]
  change (b.toNat % 16) <<< 2 % 2 ^ 32 = _
  rw [Nat.shiftLeft_eq]
  omega

/-- The packet from an offset on is long enough for its first eight bytes. -/
theorem loads {buf : Buffer} {cc offset : Nat} (long : offset + 8 ≤ cc) :
    load (memory buf 0 cc) .half (offset + 4) =
        some (ByteOrder.word16 (buf (offset + 4)) (buf (offset + 5))).toUInt32 ∧
      load (memory buf 0 cc) .byte offset = some (buf offset).toUInt32 :=
  ⟨load_half (memory_getElem? buf (by omega)) (memory_getElem? buf (by omega)),
    load_byte (memory_getElem? buf (by omega))⟩

/-- The IPv4 filter lets pass our identifier, and everything but echo replies. -/
theorem accepts4_iff {rts : PingRts} {ident : UInt16} (own : rts.ident = ident.toNat)
    (order : ByteOrder) {buf : Buffer} {cc : Nat} (long : loadIhl buf 0 * 4 + 8 ≤ cc) :
    accepts (ping4InstallFilter order rts) (memory buf 0 cc) = true ↔
      isOurs rts .raw (order.load16 (buf (loadIhl buf 0 * 4 + 4)) (buf (loadIhl buf 0 * 4 + 5))) =
          true ∨ buf (loadIhl buf 0 * 4) ≠ ICMP_ECHOREPLY := by
  have hprogram : ping4InstallFilter order rts =
      [.ldxMsh 0, .ldInd .half 4, .jeq (order.htons ident).toUInt32 0 1, .ret 0xFFFFFFFF,
        .ldInd .byte 0, .jeq ICMP_ECHOREPLY.toUInt32 1 0, .ret 0xFFFFFFF, .ret 0] := by
    rw [← identInsn_eq own order]
    rfl
  obtain ⟨hid, htype⟩ := loads long
  have hheader : load (memory buf 0 cc) .byte (0 : UInt32).toNat = some (buf 0).toUInt32 :=
    load_byte (memory_getElem? buf (show 0 < cc by omega))
  have hx := msh_toNat (buf 0)
  have hnibble := Nat.mod_lt (buf 0).toNat (show 0 < 16 by decide)
  have hsum : (((buf 0).toUInt32 &&& 0xf) <<< 2 + 4).toNat = loadIhl buf 0 * 4 + 4 := by
    rw [UInt32.toNat_add, hx]
    exact Nat.mod_eq_of_lt (by change _ + 4 < 2 ^ 32; omega)
  have hsame : (((buf 0).toUInt32 &&& 0xf) <<< 2 + 0).toNat = loadIhl buf 0 * 4 := by
    rw [UInt32.add_zero, hx]
    rfl
  have hfirst : ∀ rest a, exec (memory buf 0 cc) (.ldInd .half 4 :: rest) 0 a _ =
      exec (memory buf 0 cc) rest 0 _ _ := fun rest a => by rw [exec, hsum, hid]
  have hsecond : ∀ rest a, exec (memory buf 0 cc) (.ldInd .byte 0 :: rest) 0 a _ =
      exec (memory buf 0 cc) rest 0 _ _ := fun rest a => by rw [exec, hsame, htype]
  rw [accepts, hprogram, exec, hheader, decide_eq_true_iff]
  change exec _ _ 0 0 _ ≠ 0 ↔ _
  rw [exec_unless hfirst hsecond (by decide) (by decide), isOurs_iff own, ← word16_eq_iff,
    ne_eq, UInt8.toUInt32_inj]

/-- The IPv6 filter likewise. -/
theorem accepts6_iff {rts : PingRts} {ident : UInt16} (own : rts.ident = ident.toNat)
    (order : ByteOrder) {buf : Buffer} {cc : Nat} (long : 8 ≤ cc) :
    accepts (ping6InstallFilter order rts) (memory buf 0 cc) = true ↔
      isOurs rts .raw (order.load16 (buf 4) (buf 5)) = true ∨ buf 0 ≠ ICMP6_ECHO_REPLY := by
  have hprogram : ping6InstallFilter order rts =
      [.ldAbs .half 4, .jeq (order.htons ident).toUInt32 0 1, .ret 0xFFFFFFFF,
        .ldAbs .byte 0, .jeq ICMP6_ECHO_REPLY.toUInt32 1 0, .ret 0xFFFFFFFF, .ret 0] := by
    rw [← identInsn_eq own order]
    rfl
  obtain ⟨hid, htype⟩ := @loads buf cc 0 (by omega)
  have hfirst : ∀ rest a, exec (memory buf 0 cc) (.ldAbs .half 4 :: rest) 0 a 0 =
      exec (memory buf 0 cc) rest 0 (ByteOrder.word16 (buf 4) (buf 5)).toUInt32 0 :=
    fun rest a => by
    rw [exec, show (4 : UInt32).toNat = 0 + 4 from rfl, hid]
  have hsecond : ∀ rest a, exec (memory buf 0 cc) (.ldAbs .byte 0 :: rest) 0 a 0 =
      exec (memory buf 0 cc) rest 0 (buf 0).toUInt32 0 := fun rest a => by
    rw [exec, show (0 : UInt32).toNat = 0 from rfl, htype]
  rw [accepts, hprogram, decide_eq_true_iff, exec_unless hfirst hsecond (by decide) (by decide),
    isOurs_iff own, ← word16_eq_iff, ne_eq, UInt8.toUInt32_inj]

/-! ## What is dropped -/

/-- `ping4_parse_reply` ignores an echo reply that is not ours. -/
theorem outcome4_foreign {rts : PingRts} {m : Received} {buf : Buffer}
    (reply : (packet4 .raw m buf).type = ICMP_ECHOREPLY)
    (foreign : ¬isOurs rts .raw (packet4 .raw m buf).id = true) :
    StaleBytes.outcome4 rts (packet4 .raw m buf) = (true, rts) := by
  rw [StaleBytes.outcome4, if_pos reply, if_pos foreign, ite_self]

theorem outcome6_foreign {s : Settings} {rts : PingRts} {m : Received} {buf : Buffer}
    (reply : (packet6 m buf).type = ICMP6_ECHO_REPLY)
    (foreign : ¬isOurs rts .raw (packet6 m buf).id = true) :
    StaleBytes.outcome6 s .raw rts (packet6 m buf) = (true, rts) := by
  rw [StaleBytes.outcome6, if_pos reply, if_pos foreign, ite_self]

/-- With the filters installed, a packet that is long enough is accepted exactly if it is no echo
reply or its identifier is ours; a packet that is dropped would have been ignored. -/
theorem filters_exact (order : ByteOrder) {rts : PingRts} {ident : UInt16}
    (own : rts.ident = ident.toNat) (m : Received) (buf : Buffer) :
    (loadIhl buf 0 * 4 + 8 ≤ m.cc →
      (accepts (ping4InstallFilter order rts) (memory buf 0 m.cc) = true ↔
        isOurs rts .raw (order.load16 (buf (loadIhl buf 0 * 4 + 4))
          (buf (loadIhl buf 0 * 4 + 5))) = true ∨ buf (loadIhl buf 0 * 4) ≠ ICMP_ECHOREPLY) ∧
      (accepts (ping4InstallFilter .little rts) (memory buf 0 m.cc) = false →
        ∀ prAddr s oldRr,
          (ping4ParseReply prAddr s .raw rts oldRr (packet4 .raw m buf)).notOurs = true ∧
            (ping4ParseReply prAddr s .raw rts oldRr (packet4 .raw m buf)).rts = rts)) ∧
    (8 ≤ m.cc →
      (accepts (ping6InstallFilter order rts) (memory buf 0 m.cc) = true ↔
        isOurs rts .raw (order.load16 (buf 4) (buf 5)) = true ∨ buf 0 ≠ ICMP6_ECHO_REPLY) ∧
      (accepts (ping6InstallFilter .little rts) (memory buf 0 m.cc) = false →
        ∀ s oldRr, (ping6ParseReply s .raw rts oldRr (packet6 m buf)).notOurs = true ∧
          (ping6ParseReply s .raw rts oldRr (packet6 m buf)).rts = rts)) := by
  constructor
  · intro hlong
    refine ⟨accepts4_iff own order hlong, ?_⟩
    intro hdropped prAddr s oldRr
    rw [← Bool.not_eq_true, accepts4_iff own .little hlong, not_or, not_not] at hdropped
    have houtcome := @outcome4_foreign rts m buf hdropped.2 hdropped.1
    rwa [← StaleBytes.ping4_outcome prAddr s rts oldRr, Prod.mk.injEq] at houtcome
  · intro hlong
    refine ⟨accepts6_iff own order hlong, ?_⟩
    intro hdropped s oldRr
    rw [← Bool.not_eq_true, accepts6_iff own .little hlong, not_or, not_not] at hdropped
    have houtcome := @outcome6_foreign s rts m buf hdropped.2 hdropped.1
    rwa [← StaleBytes.ping6_outcome s .raw rts oldRr, Prod.mk.injEq] at houtcome

/-- The bytes that differ from zero in an echo reply to process 7. -/
def replyToSeven : Buffer := fun i => if i = 0 then 0x45 else if i = 25 then 7 else 0

theorem filters_exact_seven :
    accepts (ping4InstallFilter .little { ident := 0x0700 }) (memory replyToSeven 0 28) = true := by
  have hown : ({ ident := 0x0700 } : PingRts).ident = (0x0700 : UInt16).toNat := rfl
  have hexact := filters_exact .little hown { cc := 28, host := StaleBytes.noHost } replyToSeven
  exact (hexact.1 (by decide)).1.mpr (.inl (by decide))

end Coping.SocketFilter
