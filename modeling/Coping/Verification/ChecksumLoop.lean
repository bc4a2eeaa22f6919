import Coping.Ping.Cksum
import Coping.Verification.Checksum

/-!
# The checksum of any buffer

The accumulator of `in_cksum` holds the sum of any buffer of up to 65535 bytes, and the two folds
add back all of its carries. A word that is replaced shows in the checksum unless the new one has
the same residue.
-/

namespace Coping.Checksum

open OnesComplement

/-- The checksum is computed without an overflow, as the complement of the one's-complement sum. -/
def Computed (bytes : List UInt8) (csum : UInt16) : Prop :=
  inCksumLoop bytes csum = some (inCksum bytes bytes.length csum) ∧
    (inCksum bytes bytes.length csum).toNat = 0xFFFF - onesSum csum.toNat bytes

/-- No other word in the same place verifies, but for one with the same residue. -/
def Detects (bytes : List UInt8) (csum : UInt16) : Prop :=
  ∀ front lo hi back lo' hi', bytes = front ++ [lo, hi] ++ back → Even front.length →
    inCksum bytes bytes.length csum = 0 → word lo' hi' % 0xFFFF ≠ word lo hi % 0xFFFF →
      inCksum (front ++ [lo', hi'] ++ back) (front ++ [lo', hi'] ++ back).length csum ≠ 0

section Loop

variable {bytes : List UInt8} {csum : UInt16}

theorem addInt_of_le {sum term : Nat} (small : sum + term ≤ 0x7FFFFFFF) :
    addInt sum term = some (sum + term) := if_pos small

/-- The accumulator only grows, so it stays in range if its last value is. -/
theorem cksumLoop_eq : ∀ {bytes : List UInt8} {sum : Nat}, sum + wordSum bytes ≤ 0x7FFFFFFF →
    cksumLoop bytes sum = some (sum + wordSum bytes)
  | [], _, _ => rfl
  | [_], _, small => addInt_of_le small
  | lo :: hi :: rest, sum, small => by
      rw [wordSum_cons] at small ⊢
      rw [cksumLoop, addInt_of_le (by omega), Option.bind_some, cksumLoop_eq (by omega),
        Nat.add_assoc]

theorem inCksumLoop_eq (small : bytes.length ≤ MAXPACKET) :
    inCksumLoop bytes csum = some (inCksum bytes bytes.length csum) := by
  have hsum := accumulator_lt small csum
  obtain ⟨total, htotal⟩ : ∃ total, total = csum.toNat + wordSum bytes := ⟨_, rfl⟩
  rw [← htotal] at hsum
  have hlow : total &&& 0xFFFF = total % 0x10000 := Nat.and_two_pow_sub_one_eq_mod total 16
  have hhigh : total >>> 16 = total / 0x10000 := Nat.shiftRight_eq_div_pow total 16
  have honce : total >>> 16 + (total &&& 0xFFFF) ≤ 0x7FFFFFFF := by omega
  have htwice : total >>> 16 + (total &&& 0xFFFF) +
      (total >>> 16 + (total &&& 0xFFFF)) >>> 16 ≤ 0x7FFFFFFF := by
    rw [Nat.shiftRight_eq_div_pow (total >>> 16 + _) 16]
    omega
  rw [inCksumLoop, cksumLoop_eq (by omega), ← htotal, Option.bind_eq_bind, Option.bind_some,
    addInt_of_le honce, Option.bind_some, addInt_of_le htwice, Option.bind_some, inCksum,
    List.take_length, ← htotal, fold, UInt16.ofNat_mod_size]
  rfl

theorem computed (small : bytes.length ≤ MAXPACKET) (csum : UInt16) : Computed bytes csum := by
  have hsum := accumulator_lt small csum
  refine ⟨inCksumLoop_eq small, ?_⟩
  rw [inCksum_toNat, fold_eq_onesSum csum.toNat_lt (by omega)]

theorem inCksum_eq_zero_iff :
    inCksum bytes bytes.length csum = 0 ↔ fold (csum.toNat + wordSum bytes) = 0xFFFF := by
  have hlt := fold_lt (csum.toNat + wordSum bytes)
  rw [← UInt16.toNat_inj, inCksum_toNat, UInt16.toNat_zero]
  omega

/-- A buffer that verifies has the residue zero, and so has no buffer in which one word has
another residue. -/
theorem detects (small : bytes.length ≤ MAXPACKET) (csum : UInt16) : Detects bytes csum := by
  rintro front lo hi back lo' hi' rfl even verifies other verifies'
  have hsum : ∀ a b : UInt8, wordSum (front ++ [a, b] ++ back) =
      wordSum front + word a b + wordSum back := by
    intro a b
    have heven : Even (front ++ [a, b]).length := by
      rw [List.length_append]
      exact even.add even_two
    rw [wordSum_append heven, wordSum_append even]
    rfl
  have hsame : (front ++ [lo', hi'] ++ back).length = (front ++ [lo, hi] ++ back).length := by
    simp only [List.length_append, List.length_cons]
  have hsmall : (front ++ [lo', hi'] ++ back).length ≤ MAXPACKET := hsame.trans_le small
  have hbound := accumulator_lt small csum
  have hbound' := accumulator_lt hsmall csum
  obtain ⟨hresidue, -⟩ := @fold_spec (csum.toNat + wordSum (front ++ [lo, hi] ++ back)) (by omega)
  obtain ⟨hresidue', -⟩ :=
    @fold_spec (csum.toNat + wordSum (front ++ [lo', hi'] ++ back)) (by omega)
  rw [inCksum_eq_zero_iff.mp verifies, hsum] at hresidue
  rw [inCksum_eq_zero_iff.mp verifies', hsum] at hresidue'
  omega

end Loop

/-- The checksum of a packet of any length is its one's-complement checksum, and a single altered
word does not go unnoticed. -/
theorem in_cksum_sound (bytes : List UInt8) (csum : UInt16) (small : bytes.length ≤ 65535) :
    Computed bytes csum ∧ Detects bytes csum := ⟨computed small csum, detects small csum⟩

theorem in_cksum_sound_odd : Computed [0x12, 0x34, 0x56] 1 ∧ Detects [0x12, 0x34, 0x56] 1 :=
  in_cksum_sound [0x12, 0x34, 0x56] 1 (by decide)

end Coping.Checksum
