import Coping.Clockdiff.Cksum
import Coping.Verification.ChecksumLoop

/-!
# Two loops with one checksum

`in_cksum` of `clockdiff.c` adds the carry back after every word, that of `ping.c` adds all
of them back at the end. Both compute the one's-complement sum of the words: the sum with a
carry added back is the sum with an end-around carry, and a folded sum is the same
representative of its residue.
-/

namespace Coping.Addcarry

open OnesComplement

variable {bytes : List UInt8}

/-- The high half of a sum tells whether there is a carry. -/
theorem high_eq_zero_iff {sum : Nat} (small : sum < 0x100000000) :
    sum &&& 0xffff0000 = 0 ↔ sum < 0x10000 := by
  have hhigh : (sum &&& 0xffff0000) / 2 ^ 16 = sum / 2 ^ 16 := by
    rw [Nat.and_div_two_pow, show 0xffff0000 / 2 ^ 16 = 2 ^ 16 - 1 by decide,
      Nat.and_two_pow_sub_one_eq_mod, Nat.mod_eq_of_lt (by omega)]
  have hlow : (sum &&& 0xffff0000) % 2 ^ 16 = 0 := by
    rw [Nat.and_mod_two_pow, show 0xffff0000 % 2 ^ 16 = 0 by decide, Nat.and_zero]
  omega

/-- Adding the carry back after a word is the end-around carry. -/
theorem addcarry_eq_endAround {sum term : Nat} (hsum : sum < 0x10000) (hterm : term < 0x10000) :
    Clockdiff.addcarry (sum + term) = endAround sum term := by
  have hcarry := @high_eq_zero_iff (sum + term) (by omega)
  have hlow : (sum + term) &&& 0xffff = (sum + term) % 0x10000 :=
    Nat.and_two_pow_sub_one_eq_mod (sum + term) 16
  rw [Clockdiff.addcarry, endAround]
  by_cases hfits : sum + term < 0x10000
  · rw [if_neg fun h => h (hcarry.mpr hfits), if_pos hfits]
  · rw [if_pos fun h => hfits (hcarry.mp h), if_neg hfits, hlow]
    omega

/-- Aligned or not, the word at an address is that of its two bytes. -/
theorem wordAt_toNat (addr : Nat) (lo hi : UInt8) :
    (Clockdiff.wordAt addr lo hi).toNat = word lo hi := by
  have hload : (ByteOrder.little.load16 lo hi).toNat = word lo hi := by
    rw [ByteOrder.load16, ByteOrder.word16_toNat, word, Nat.add_comm]
  rw [Clockdiff.wordAt]
  split
  · exact hload
  · exact hload

theorem lastWord_toNat (last : UInt8) :
    (Clockdiff.UnionWord.s { c0 := last, c1 := 0 }).toNat = last.toNat := by
  rw [Clockdiff.UnionWord.s, ByteOrder.load16, ByteOrder.word16_toNat]
  exact Nat.zero_add _

/-- The sum never leaves 16 bits between two words, so that the loop computes the
one's-complement sum of any buffer. -/
theorem sumWords_eq : ∀ {bytes : List UInt8} {sum : Nat} (addr : Nat), sum < 0x10000 →
    Clockdiff.sumWords addr bytes sum = some (onesSum sum bytes)
  | [], _, _, _ => rfl
  | [last], sum, _, hsum => by
      have hlast := last.toNat_lt
      rw [Clockdiff.sumWords, lastWord_toNat, Checksum.addInt_of_le (by omega), Option.map_some,
        addcarry_eq_endAround hsum (by omega), onesSum]
  | lo :: hi :: rest, sum, addr, hsum => by
      have hword := word_lt lo hi
      rw [Clockdiff.sumWords, wordAt_toNat, Checksum.addInt_of_le (by omega), Option.bind_some,
        addcarry_eq_endAround hsum hword, onesSum]
      exact sumWords_eq (addr + 2) (endAround_spec hsum hword).1

/-- The checksum of any buffer is the complement of its one's-complement sum. -/
theorem inCksum_eq (addr : Nat) (bytes : List UInt8) :
    Clockdiff.inCksum addr bytes = some (~~~UInt16.ofNat (onesSum 0 bytes)) := by
  have hlow : onesSum 0 bytes &&& 0xffff = onesSum 0 bytes := by
    rw [show (0xffff : Nat) = 2 ^ 16 - 1 by decide, Nat.and_two_pow_sub_one_eq_mod]
    exact Nat.mod_eq_of_lt (onesSum_spec bytes (by decide)).1
  rw [Clockdiff.inCksum, sumWords_eq addr (by decide), Option.map_some, hlow]

/-- At any address both programs compute the same checksum, without an overflow of `int`. -/
theorem checksums_agree (addr : Nat) (bytes : List UInt8) (small : bytes.length ≤ 65535) :
    ∃ checksum, Clockdiff.inCksum addr bytes = some checksum ∧
      inCksumLoop bytes 0 = some checksum := by
  obtain ⟨hloop, hvalue⟩ := Checksum.computed (show bytes.length ≤ MAXPACKET from small) 0
  have hlt : onesSum 0 bytes < 0x10000 := (onesSum_spec bytes (by decide)).1
  refine ⟨_, inCksum_eq addr bytes, ?_⟩
  rw [hloop]
  apply congrArg some
  apply UInt16.toNat_inj.mp
  rw [hvalue, UInt16.toNat_not, UInt16.toNat_ofNat', Nat.mod_eq_of_lt hlt]
  rfl

/-- Three bytes at an odd address. -/
theorem checksums_agree_odd :
    ∃ checksum, Clockdiff.inCksum 1 [0xff, 0xff, 0x01] = some checksum ∧
      inCksumLoop [0xff, 0xff, 0x01] 0 = some checksum :=
  checksums_agree 1 [0xff, 0xff, 0x01] (by decide)

end Coping.Addcarry
