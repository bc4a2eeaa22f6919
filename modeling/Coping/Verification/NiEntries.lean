import Coping.Ping.NiEntries
import Coping.Verification.OptionBounds

/-!
# The entries of a node information reply

A reply to a query for addresses has entries of one size behind its header, and the walk over them
shows the address of every complete entry. It reads nothing behind the message. Whether a part of an
entry is left over and whether the flag of the header is set are told apart.
-/

namespace Coping.NiEntries

open OptionWalk OptionBounds

def address? : NiShown → Option Field
  | .address field => some field
  | _ => none

/-- A reply with the header that is looked at, to a query for addresses of a family. -/
structure AddressReply where
  message : List UInt8
  family : Family
  header : 8 ≤ message.length
  queried : niFamily (ByteOrder.word16 (octet message 4) (octet message 5)) = some family

/-- The address of the entry at an offset, behind its time to live. -/
def entryAddress (message : List UInt8) (aflen p : Nat) : Field where
  offset := p + 4
  bytes := (message.drop (p + 4)).take aflen

variable {message : List UInt8} {aflen : Nat}

theorem memory_octet {start n : Nat} (inside : start + n ≤ message.length) :
    memory (octet message) start n = (message.drop start).take n := by
  apply List.ext_getElem
  · rw [memory, List.length_map, List.length_range, List.length_take, List.length_drop]
    omega
  · intro i hi hi'
    rw [memory, List.length_map, List.length_range] at hi
    rw [List.getElem_take, List.getElem_drop]
    simp only [memory, List.getElem_map, List.getElem_range]
    rw [octet, List.getD_eq_getElem?_getD, List.getElem?_eq_getElem (by omega), Option.getD_some]

/-- What is shown of the entries from an offset on. -/
structure ShowsEntries (message : List UInt8) (aflen p : Nat) (shown : List NiShown) : Prop where
  addresses : shown.filterMap address? =
    (List.range ((message.length - p) / (4 + aflen))).map fun k =>
      entryAddress message aflen (p + k * (4 + aflen))
  cutOff : NiShown.cutOff ∈ shown ↔ (message.length - p) % (4 + aflen) ≠ 0
  unflagged : NiShown.truncated ∉ shown

theorem ShowsEntries.comma {p : Nat} {shown : List NiShown} (h : ShowsEntries message aflen p shown)
    (continued : Bool) : ShowsEntries message aflen p (commaShown continued ++ shown) := by
  cases continued with
  | false => exact h
  | true =>
      refine ⟨h.addresses, ?_, ?_⟩
      · rw [← h.cutOff, commaShown, if_pos rfl, List.singleton_append, List.mem_cons]
        exact or_iff_right (by rintro ⟨⟩)
      · rw [commaShown, if_pos rfl, List.singleton_append, List.mem_cons]
        exact fun hmem => hmem.elim (by rintro ⟨⟩) h.unflagged

theorem shows_nothing {p : Nat} (behind : message.length ≤ p) :
    ShowsEntries message aflen p [] := by
  have hnone : message.length - p = 0 := Nat.sub_eq_zero_of_le behind
  refine ⟨?_, ?_, List.not_mem_nil⟩
  · rw [hnone, Nat.zero_div]
    rfl
  · rw [hnone, Nat.zero_mod]
    exact iff_of_false List.not_mem_nil (not_not_intro rfl)

theorem shows_cutOff {p : Nat} (inside : p < message.length)
    (cut : message.length < p + 4 + aflen) :
    ShowsEntries message aflen p [.cutOff] := by
  have hpart : message.length - p < 4 + aflen := by omega
  refine ⟨?_, ?_, ?_⟩
  · rw [Nat.div_eq_of_lt hpart]
    rfl
  · rw [Nat.mod_eq_of_lt hpart]
    exact iff_of_true List.mem_cons_self (Nat.sub_ne_zero_of_lt inside)
  · rw [List.mem_singleton]
    rintro ⟨⟩

theorem ShowsEntries.cons {p : Nat} {shown : List NiShown}
    (complete : p + 4 + aflen ≤ message.length)
    (h : ShowsEntries message aflen (p + 4 + aflen) shown) :
    ShowsEntries message aflen p (.address (entryAddress message aflen p) :: shown) := by
  have hleft : message.length - (p + 4 + aflen) = message.length - p - (4 + aflen) := by omega
  have hsize : 4 + aflen ≤ message.length - p := by omega
  refine ⟨?_, ?_, ?_⟩
  · have haddress : address? (.address (entryAddress message aflen p)) =
        some (entryAddress message aflen p) := rfl
    rw [List.filterMap_cons_some haddress, h.addresses, hleft,
      Nat.div_eq_sub_div (Nat.add_pos_left (by decide) _) hsize, List.range_succ_eq_map,
      List.map_cons, List.map_map, Nat.zero_mul, Nat.add_zero]
    congr 2
    funext k
    rw [Function.comp_apply, Nat.succ_mul]
    congr 1
    omega
  · rw [List.mem_cons, or_iff_right (by rintro ⟨⟩), h.cutOff, hleft, ← Nat.mod_eq_sub_mod hsize]
  · rw [List.mem_cons]
    exact fun hmem => hmem.elim (by rintro ⟨⟩) h.unflagged

/-- The walk over a message, from any offset. -/
theorem walkEntries_shows (af : Family) (message : List UInt8) (continued : Bool) (p : Nat) :
    ∃ shown, walkEntries (areaRead message) (some af) af.aflen message.length continued p =
        some shown ∧ ShowsEntries message af.aflen p shown := by
  induction hleft : message.length - p using Nat.strongRecOn generalizing p continued with
  | ind left ih =>
      rw [walkEntries]
      split
      next hinside =>
        split
        next hcut =>
          exact ⟨_, rfl, (shows_cutOff hinside hcut).comma continued⟩
        next hcomplete =>
          have hle : p + 4 + af.aflen ≤ message.length := Nat.not_lt.mp hcomplete
          have hpositive := af.aflen_pos
          obtain ⟨rest, hrest, hshows⟩ := ih _ (by omega) true (p + 4 + af.aflen) rfl
          have hbytes := (@readBytes_area _ (p + 4) _ hpositive).1 hle
          rw [memory_octet hle] at hbytes
          rw [hbytes, hrest]
          exact ⟨_, rfl, (hshows.cons hle).comma continued⟩
      next houtside => exact ⟨[], rfl, shows_nothing (Nat.not_lt.mp houtside)⟩

namespace AddressReply

variable (r : AddressReply)

def flags : UInt16 := ByteOrder.word16 (octet r.message 6) (octet r.message 7)

/-- The flag of the header, the same bit for both families. -/
def Flagged : Prop := r.flags &&& 1 ≠ 0

/-- The size of an entry. -/
def entrySize : Nat := 4 + r.family.aflen

theorem readShort_header {offset : Nat} (inside : offset + 1 < 8) :
    readShort (areaRead r.message) offset =
      some (ByteOrder.word16 (octet r.message offset) (octet r.message (offset + 1))) := by
  have hheader := r.header
  rw [readShort, read_octet (by omega), read_octet (by omega)]
  rfl

theorem prNiqueryReplyAddr_eq :
    prNiqueryReplyAddr (areaRead r.message) r.message.length =
      (walkEntries (areaRead r.message) (some r.family) r.family.aflen r.message.length false
        sizeofNiHdr).map fun shown => shown ++ flagShown r.flags := by
  have hlen : ¬(r.message.length : Int) < 0 := Int.not_lt.mpr (Int.natCast_nonneg _)
  rw [prNiqueryReplyAddr, r.readShort_header (by decide), r.readShort_header (by decide)]
  simp only [Option.bind_eq_bind, Option.bind_some, r.queried, reduceCtorEq, if_false, hlen,
    Int.toNat_natCast, Option.map_eq_bind]
  rfl

end AddressReply

/-- What the flag adds. -/
theorem flagShown_spec (flags : UInt16) :
    (flagShown flags).filterMap address? = [] ∧ NiShown.cutOff ∉ flagShown flags ∧
      (NiShown.truncated ∈ flagShown flags ↔ flags &&& 1 ≠ 0) := by
  rw [flagShown]
  split
  next hflag =>
    refine ⟨rfl, ?_, iff_of_true List.mem_cons_self hflag⟩
    rw [List.mem_singleton]
    rintro ⟨⟩
  next hflag => exact ⟨rfl, List.not_mem_nil, iff_of_false List.not_mem_nil hflag⟩

/-- A reply is read inside its message only. Its complete entries are shown in their order, and a
parse error exactly if a part of an entry is behind them, whatever its flag says. -/
theorem reply_addresses (r : AddressReply) :
    ∃ shown, prNiqueryReplyAddr (areaRead r.message) r.message.length = some shown ∧
      shown.filterMap address? =
        (List.range ((r.message.length - 16) / r.entrySize)).map (fun k =>
          entryAddress r.message r.family.aflen (16 + k * r.entrySize)) ∧
      (NiShown.cutOff ∈ shown ↔ (r.message.length - 16) % r.entrySize ≠ 0) ∧
      (NiShown.truncated ∈ shown ↔ r.Flagged) := by
  obtain ⟨shown, hwalk, hshows⟩ := walkEntries_shows r.family r.message false sizeofNiHdr
  rw [r.prNiqueryReplyAddr_eq, hwalk, Option.map_some]
  obtain ⟨hnone, hcutOff, hflag⟩ := flagShown_spec r.flags
  refine ⟨_, rfl, ?_, ?_, ?_⟩
  · rw [List.filterMap_append, hshows.addresses, hnone, List.append_nil]
    rfl
  · rw [List.mem_append, or_iff_left hcutOff, hshows.cutOff]
    rfl
  · rw [List.mem_append, or_iff_right hshows.unflagged, hflag]
    rfl

/-! ## The text -/

/-- What is printed. -/
def printed (ntop : List UInt8 → AddressText) (unexpected : Printed) : NiShown → Printed
  | .comma => .raw (CFormat.ascii ",")
  | .address field => .raw (CFormat.ascii " " ++ (ntop field.bytes).bytes)
  | .unexpected => unexpected
  | .errorParse reason => errorField reason
  | .truncated => printTruncated

/-- The reply that is printed elsewhere is that of the message. -/
structure Stands (ntop : List UInt8 → AddressText) (r : AddressReply) (ni : NiReply) : Prop where
  address : ∀ p, ni.address p = ntop ((r.message.drop p).take r.family.aflen)
  flag : ni.truncateFlag = true ↔ r.Flagged

theorem walk_printed {ntop : List UInt8 → AddressText} {r : AddressReply} {ni : NiReply}
    (stands : Stands ntop r ni) (unexpected : Printed) (continued : Bool) (p : Nat) :
    (walkEntries (areaRead r.message) (some r.family) r.family.aflen r.message.length continued
        p).map (List.map (printed ntop unexpected)) =
      some (niAddresses ni r.message.length r.family.aflen continued p) := by
  induction hleft : r.message.length - p using Nat.strongRecOn generalizing p continued with
  | ind left ih =>
      have hcomma : (commaShown continued).map (printed ntop unexpected) =
          commaBefore continued := by cases continued <;> rfl
      rw [walkEntries, niAddresses]
      split
      next hinside =>
        split
        next hcut =>
          rw [Option.map_some, List.map_append, hcomma]
          rfl
        next hcomplete =>
          have hle : p + 4 + r.family.aflen ≤ r.message.length := Nat.not_lt.mp hcomplete
          have hbytes := (@readBytes_area _ (p + 4) _ r.family.aflen_pos).1 hle
          obtain ⟨rest, hrest, hprinted⟩ :=
            Option.map_eq_some_iff.mp (ih _ (by omega) true (p + 4 + r.family.aflen) rfl)
          rw [memory_octet hle] at hbytes
          rw [hbytes, hrest, ← hprinted, stands.address]
          dsimp only [bind, Option.bind, pure, Option.map_some]
          rw [List.map_append, hcomma]
          rfl
      next houtside => rfl

/-- What is shown is what is printed elsewhere. -/
theorem reply_printed {ntop : List UInt8 → AddressText} {r : AddressReply} {ni : NiReply}
    (stands : Stands ntop r ni) (unexpected : Printed) :
    (prNiqueryReplyAddr (areaRead r.message) r.message.length).map
        (List.map (printed ntop unexpected)) =
      some (niReplyAddr ni r.message.length r.family.aflen) := by
  obtain ⟨shown, hwalk, hprinted⟩ :=
    Option.map_eq_some_iff.mp (walk_printed stands unexpected false sizeofNiHdr)
  have hlen : ¬(r.message.length : Int) < 0 := Int.not_lt.mpr (Int.natCast_nonneg _)
  have hflag : (flagShown r.flags).map (printed ntop unexpected) =
      if ni.truncateFlag then [printTruncated] else [] := by
    rw [flagShown]
    split
    next hflagged =>
      rw [if_pos (stands.flag.mpr hflagged)]
      rfl
    next hflagged =>
      rw [if_neg fun h => hflagged (stands.flag.mp h)]
      rfl
  rw [r.prNiqueryReplyAddr_eq, hwalk, niReplyAddr, if_neg hlen, Int.toNat_natCast,
    Option.map_some, Option.map_some, List.map_append, hprinted, hflag]
  rfl

end Coping.NiEntries
