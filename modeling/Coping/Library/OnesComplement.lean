import Mathlib.Algebra.Order.Ring.Nat
import Mathlib.Algebra.Group.Nat.Even

/-!
# One's-complement sums of 16-bit words

A byte string is read as little-endian 16-bit words, a last odd byte as a word of
its own. `fold` adds the carries of a 32-bit sum back into its low half. A folded
sum is a representative modulo `0xFFFF`; of the two zeros `0` and `0xFFFF` it is
`0` only for the sum zero. `fold_spec` says so, and the rules for continuing from a
folded sum and for inserting a complement follow from it.
-/

namespace OnesComplement

/-- Two bytes as a word, the low byte first. -/
def word (lo hi : UInt8) : Nat := lo.toNat + 256 * hi.toNat

/-- The sum of the words of a byte string, without any reduction. -/
def wordSum : List UInt8 → Nat
  | [] => 0
  | [last] => last.toNat
  | lo :: hi :: rest => word lo hi + wordSum rest

/-- Both folds of the carries, with the truncation to 16 bits. -/
def fold (sum : Nat) : Nat :=
  let once := (sum >>> 16) + (sum &&& 0xFFFF)
  (once + (once >>> 16)) % 0x10000

@[simp] theorem wordSum_nil : wordSum [] = 0 := rfl

@[simp] theorem wordSum_cons (lo hi : UInt8) (rest : List UInt8) :
    wordSum (lo :: hi :: rest) = word lo hi + wordSum rest := rfl

theorem word_lt (lo hi : UInt8) : word lo hi < 0x10000 := by
  have hlo := lo.toNat_lt
  have hhi := hi.toNat_lt
  simp only [word]
  omega

/-- Words do not straddle a boundary at an even distance. -/
theorem wordSum_append : ∀ {front : List UInt8}, Even front.length → ∀ back : List UInt8,
    wordSum (front ++ back) = wordSum front + wordSum back
  | [], _, back => (Nat.zero_add _).symm
  | [_], heven, _ => absurd heven Nat.not_even_one
  | lo :: hi :: rest, heven, back => by
      have hrest : Even rest.length := by
        simpa only [List.length_cons, Nat.even_add_one, not_not] using heven
      rw [List.cons_append, List.cons_append, wordSum_cons, wordSum_cons,
        wordSum_append hrest back, Nat.add_assoc]

/-- A 32-bit signed accumulator holds the sum of any packet. -/
theorem wordSum_le : ∀ bytes : List UInt8,
    wordSum bytes ≤ 0xFFFF * (bytes.length / 2) + 0xFF * (bytes.length % 2)
  | [] => Nat.le_refl _
  | [last] => by
      have := last.toNat_lt
      simp only [wordSum, List.length_singleton]
      omega
  | lo :: hi :: rest => by
      have hrest := wordSum_le rest
      have hword := word_lt lo hi
      rw [wordSum_cons]
      simp only [List.length_cons]
      omega

theorem fold_lt (sum : Nat) : fold sum < 0x10000 := Nat.mod_lt _ (by decide)

/-- Folding keeps the residue and keeps zero apart from it. -/
theorem fold_spec {sum : Nat} (small : sum < 0x100000000) :
    fold sum % 0xFFFF = sum % 0xFFFF ∧ (fold sum = 0 ↔ sum = 0) := by
  have hlow : sum &&& 0xFFFF = sum % 0x10000 := Nat.and_two_pow_sub_one_eq_mod sum 16
  obtain ⟨once, honce⟩ : ∃ once, once = sum / 0x10000 + sum % 0x10000 := ⟨_, rfl⟩
  have hfold : fold sum = (once + once / 0x10000) % 0x10000 := by
    simp only [fold, hlow, Nat.shiftRight_eq_div_pow, honce, Nat.reducePow]
  rw [hfold]
  obtain hfits | hcarry := Nat.lt_or_ge once 0x10000
  · rw [Nat.div_eq_of_lt hfits, Nat.add_zero, Nat.mod_eq_of_lt hfits]
    omega
  · have hhigh : sum / 0x10000 < 0x10000 := by omega
    have hbound : once < 0x1FFFF := by omega
    have hcarried : once / 0x10000 = 1 := by omega
    have hone : (once + once / 0x10000) % 0x10000 = once - 0xFFFF := by omega
    rw [hone]
    omega

/-- Of the folded values, only the two zeros have the same residue. -/
theorem eq_of_residue {a b : Nat} (ha : a < 0x10000) (hb : b < 0x10000)
    (residue : a % 0xFFFF = b % 0xFFFF) (zero : a = 0 ↔ b = 0) : a = b := by
  omega

/-- Addition with the carry added back at the other end. -/
def endAround (a b : Nat) : Nat := if a + b < 0x10000 then a + b else a + b - 0xFFFF

/-- The one's-complement sum of the words of a byte string, from a first term on. -/
def onesSum (start : Nat) : List UInt8 → Nat
  | [] => start
  | [last] => endAround start last.toNat
  | lo :: hi :: rest => onesSum (endAround start (word lo hi)) rest

theorem endAround_spec {a b : Nat} (ha : a < 0x10000) (hb : b < 0x10000) :
    endAround a b < 0x10000 ∧ endAround a b % 0xFFFF = (a + b) % 0xFFFF ∧
      (endAround a b = 0 ↔ a + b = 0) := by
  rw [endAround]
  split <;> omega

theorem onesSum_spec : ∀ {start : Nat} (bytes : List UInt8), start < 0x10000 →
    onesSum start bytes < 0x10000 ∧
      onesSum start bytes % 0xFFFF = (start + wordSum bytes) % 0xFFFF ∧
      (onesSum start bytes = 0 ↔ start + wordSum bytes = 0)
  | start, [], hstart => ⟨hstart, rfl, Iff.rfl⟩
  | start, [last], hstart => endAround_spec hstart (Nat.lt_of_lt_of_le last.toNat_lt (by decide))
  | start, lo :: hi :: rest, hstart => by
      obtain ⟨hlt, hresidue, hzero⟩ := endAround_spec hstart (word_lt lo hi)
      obtain ⟨hlt', hresidue', hzero'⟩ := onesSum_spec rest hlt
      rw [onesSum, wordSum_cons]
      exact ⟨hlt', by omega, by omega⟩

/-- Folding twice adds back every carry there is. -/
theorem fold_eq_onesSum {start : Nat} {bytes : List UInt8} (small : start < 0x10000)
    (fits : start + wordSum bytes < 0x100000000) :
    fold (start + wordSum bytes) = onesSum start bytes := by
  obtain ⟨hlt, hresidue, hzero⟩ := onesSum_spec bytes small
  obtain ⟨hfold, hfold0⟩ := fold_spec fits
  exact eq_of_residue (fold_lt _) hlt (by omega) (by omega)

/-- A sum may be continued from a folded part of it. -/
theorem fold_fold_add {first second : Nat} (small : first + second < 0x80000000) :
    fold (fold first + second) = fold (first + second) := by
  have hlt := fold_lt first
  obtain ⟨hresidue, hzero⟩ := @fold_spec first (by omega)
  obtain ⟨hpart, hpart0⟩ := @fold_spec (fold first + second) (by omega)
  obtain ⟨hwhole, hwhole0⟩ := @fold_spec (first + second) (by omega)
  exact eq_of_residue (fold_lt _) (fold_lt _) (by omega) (by omega)

/-- A sum together with the complement of its folded value folds to the other zero. -/
theorem fold_add_complement {sum : Nat} (small : sum < 0x80000000) :
    fold (sum + (0xFFFF - fold sum)) = 0xFFFF := by
  have hlt := fold_lt sum
  obtain ⟨hresidue, hzero⟩ := @fold_spec sum (by omega)
  obtain ⟨hwhole, hwhole0⟩ := @fold_spec (sum + (0xFFFF - fold sum)) (by omega)
  exact eq_of_residue (fold_lt _) (by decide) (by omega) (by omega)

end OnesComplement
