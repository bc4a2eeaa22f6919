import Coping.Ping.Numbers

/-!
# What `-F` and `-Q` accept

The result of `strtoul` and of `strtol` is narrowed to an `int` before it is compared with anything.
So a number beyond 32 bits is taken for another one, and a text without a digit is a zero when it
ends where a digit is expected. A type of service has no lower limit, so that a negative number is
accepted as well.
-/

namespace Coping.Numbers

open CFormat CInt CNumber

/-- The whole text is a number. -/
def Denotes (str : CString) (n : Int) : Prop := Numeral (hexOrDecimal str).1 (hexOrDecimal str).2 n

/-- A number up to a limit is what is returned for a text of it, and for no other text is there
a result. -/
def Right {ε : Type} (parse : CString → Except ε Int) (limit : Int) (str : CString) : Prop :=
  ∀ v, parse str = .ok v ↔ Denotes str v ∧ 0 ≤ v ∧ v ≤ limit

/-- Something is where digits are expected. -/
def Begins (str : CString) : Prop := (hexOrDecimal str).2 ≠ []

/-! ## Any of the two -/

/-- A number has the result `value`, nothing is zero, and other texts have no result. -/
structure Parses {ε : Type} (parse : CString → Except ε Int) (value : Int → Option Int) : Prop where
  numeral : ∀ str n, Denotes str n → ∀ v, parse str = .ok v ↔ value n = some v
  empty : ∀ str, ¬Begins str → parse str = .ok 0
  other : ∀ str, Begins str → (∀ n, ¬Denotes str n) → ∀ v, parse str ≠ .ok v

/-- What is right depends on the numbers alone. -/
theorem right_iff {ε : Type} {parse : CString → Except ε Int} {value : Int → Option Int}
    (parses : Parses parse value) (limit : Int) (str : CString) :
    Right parse limit str ↔ Begins str ∧
      ∀ n, Denotes str n → value n = if 0 ≤ n ∧ n ≤ limit then some n else none := by
  constructor
  · intro hright
    constructor
    · intro hempty
      have hzero := (hright 0).mp (parses.empty str (not_not_intro hempty))
      exact hzero.1.ne_nil hempty
    · intro n hn
      apply Option.ext
      intro v
      rw [← parses.numeral str n hn v, hright v]
      constructor
      · rintro ⟨hv, hlimit⟩
        rw [hn.unique hv, if_pos hlimit]
      · intro hvalue
        split at hvalue
        next hlimit =>
          cases hvalue
          exact ⟨hn, hlimit⟩
        next => cases hvalue
  · rintro ⟨hbegins, hvalue⟩ v
    constructor
    · intro hparse
      by_cases hdenotes : ∃ n, Denotes str n
      · obtain ⟨n, hn⟩ := hdenotes
        have hsome := (parses.numeral str n hn v).mp hparse
        rw [hvalue n hn] at hsome
        split at hsome
        next hlimit =>
          cases hsome
          exact ⟨hn, hlimit⟩
        next => cases hsome
      · exact absurd hparse (parses.other str hbegins (not_exists.mp hdenotes) v)
    · rintro ⟨hn, hlimit⟩
      rw [parses.numeral str v hn, hvalue v hn, if_pos hlimit]

/-! ## Flow labels -/

/-- No bit beyond the mask. -/
theorem flow_mask (val : BitVec 64) :
    val &&& ~~~IPV6_FLOWINFO_FLOWLABEL = 0 ↔ val.toNat < 2 ^ 20 := by
  have hmask : ∀ i, IPV6_FLOWINFO_FLOWLABEL.getLsbD i = decide (i < 20) := fun i =>
    Nat.testBit_two_pow_sub_one 20 i
  constructor
  · intro hzero
    refine Nat.lt_pow_two_of_testBit val.toNat fun i hi => ?_
    have hbit := congrArg (BitVec.getLsbD · i) hzero
    simp only [BitVec.getLsbD_and, BitVec.getLsbD_not, hmask] at hbit
    by_cases hinside : i < 64
    · rw [decide_eq_true hinside, decide_eq_false (Nat.not_lt.mpr hi), Bool.not_false,
        Bool.and_true, Bool.and_true] at hbit
      rw [← BitVec.testBit_toNat] at hbit
      rw [hbit]
      exact BitVec.getLsbD_zero
    · exact BitVec.getLsbD_of_ge val i (Nat.not_lt.mp hinside)
  · intro hlt
    apply BitVec.eq_of_getLsbD_eq
    intro i hi
    rw [BitVec.getLsbD_and, BitVec.getLsbD_not, hmask]
    by_cases hlow : i < 20
    · rw [decide_eq_true hlow, Bool.not_true, Bool.and_false, Bool.and_false]
      exact BitVec.getLsbD_zero.symm
    · have hbit : val.getLsbD i = false :=
        Nat.testBit_lt_two_pow (Nat.lt_of_lt_of_le hlt (Nat.pow_le_pow_right (by decide)
          (Nat.not_lt.mp hlow)))
      rw [hbit, Bool.false_and]
      exact BitVec.getLsbD_zero.symm

/-- An `int` that is a flow label. -/
def flowLabel (val : Int) : Option Int := if 0 ≤ val ∧ val ≤ 0xfffff then some val else none

theorem parseflow_end {str : CString} {u : Int}
    (read : strtoul (hexOrDecimal str).1 (hexOrDecimal str).2 = (u, [])) (v : Int) :
    parseflow str = .ok v ↔ flowLabel (toInt32 u) = some v := by
  have hint : -2147483648 ≤ toInt32 u ∧ toInt32 u ≤ 2147483647 := by
    rw [toInt32]
    omega
  have hval : ((BitVec.ofInt 64 (toInt32 u)).toNat : Int) = toInt32 u % 18446744073709551616 := by
    rw [BitVec.toNat_ofInt]
    omega
  simp only [parseflow, read, flow_mask, ne_eq, not_true_eq_false, if_false, hval, flowLabel]
  split
  next hhigh =>
    have hrange : ¬(0 ≤ toInt32 u ∧ toInt32 u ≤ 0xfffff) := by omega
    rw [if_neg hrange]
    constructor <;>
    · intro h
      cases h
  next hlow =>
    have hrange : 0 ≤ toInt32 u ∧ toInt32 u ≤ 0xfffff := by omega
    have hsame : toInt32 (toInt32 u % 18446744073709551616) = toInt32 u := by
      rw [Int.emod_eq_of_lt hrange.1 (by omega)]
      exact toInt32_of_range hint.1 hint.2
    rw [if_pos hrange, hsame, Except.ok.injEq, Option.some.injEq]

theorem parseflow_parses : Parses parseflow fun n => flowLabel (toInt32 (saturateUlong n)) where
  numeral _ _ hn := parseflow_end (convert_numeral saturateUlong hn)
  empty := by
    intro str hempty
    refine (parseflow_end (u := 0) ?_ 0).mpr rfl
    rw [not_not.mp hempty]
    exact convert_nil _ _
  other := by
    intro str hbegins hnone v hok
    have hread := convert_other saturateUlong hbegins hnone
    rw [parseflow, strtoul, if_pos hread] at hok
    cases hok

theorem flow_range_iff (n : Int) :
    flowLabel (toInt32 (saturateUlong n)) = (if 0 ≤ n ∧ n ≤ 0xfffff then some n else none) ↔
      0 ≤ n ∧ n ≤ 0xfffff ∨ 2 ^ 64 ≤ |n| ∨ 0xfffff < n % 2 ^ 32 := by
  have habs := abs_cases n
  by_cases hrange : 0 ≤ n ∧ n ≤ 0xfffff
  · have hsame : toInt32 (toUInt64 n) = n := by
      rw [toInt32, toUInt64]
      omega
    rw [saturateUlong_of_le (by rw [ulongMax]; omega), hsame]
    exact iff_of_true rfl (.inl hrange)
  · rw [if_neg hrange]
    by_cases hbig : ulongMax < |n|
    · rw [saturateUlong, if_pos hbig]
      rw [ulongMax] at hbig
      exact iff_of_true rfl (.inr (.inl (by omega)))
    · have hlow : 0 ≤ toInt32 (toUInt64 n) ∧ toInt32 (toUInt64 n) ≤ 0xfffff ↔
          n % 2 ^ 32 ≤ 0xfffff := by
        rw [toInt32, toUInt64]
        omega
      rw [saturateUlong_of_le (Int.not_lt.mp hbig), flowLabel]
      rw [ulongMax] at hbig
      split
      next hwrapped =>
        refine iff_of_false (Option.some_ne_none _) ?_
        omega
      next hwrapped => exact iff_of_true rfl (.inr (.inr (by omega)))

/-! ## Types of service -/

/-- An `int` that is taken for a type of service. -/
def typeOfService (tos : Int) : Option Int := if tos ≤ 255 then some tos else none

theorem parsetos_end {str : CString} {u : Int}
    (read : strtol (hexOrDecimal str).1 (hexOrDecimal str).2 = (u, [])) (v : Int) :
    parsetos str = .ok v ↔ typeOfService (toInt32 u) = some v := by
  simp only [parsetos, read, TOS_MAX, ne_eq, not_true_eq_false, if_false, typeOfService]
  split
  next hhigh =>
    rw [if_neg (by omega)]
    constructor <;>
    · intro h
      cases h
  next hlow => rw [if_pos (by omega), Except.ok.injEq, Option.some.injEq]

theorem parsetos_parses : Parses parsetos fun n => typeOfService (toInt32 (saturateLong n)) where
  numeral _ _ hn := parsetos_end (convert_numeral saturateLong hn)
  empty := by
    intro str hempty
    refine (parsetos_end (u := 0) ?_ 0).mpr rfl
    rw [not_not.mp hempty]
    exact convert_nil _ _
  other := by
    intro str hbegins hnone v hok
    have hread := convert_other saturateLong hbegins hnone
    rw [parsetos, strtol, if_pos hread] at hok
    cases hok

theorem tos_range_iff (n : Int) :
    typeOfService (toInt32 (saturateLong n)) = (if 0 ≤ n ∧ n ≤ 255 then some n else none) ↔
      0 ≤ n ∧ n ≤ 255 ∨ InLong n ∧ 255 < n % 2 ^ 32 ∧ n % 2 ^ 32 < 2 ^ 31 := by
  by_cases hlong : InLong n
  · rw [saturateLong_of_inLong hlong]
    by_cases hrange : 0 ≤ n ∧ n ≤ 255
    · rw [toInt32_of_range (by omega) (by rw [intMax]; omega), if_pos hrange]
      exact iff_of_true (if_pos hrange.2) (.inl hrange)
    · have hhigh : toInt32 n ≤ 255 ↔ ¬(255 < n % 2 ^ 32 ∧ n % 2 ^ 32 < 2 ^ 31) := by
        rw [toInt32]
        omega
      rw [if_neg hrange, typeOfService]
      split
      next hwrapped =>
        refine iff_of_false (Option.some_ne_none _) ?_
        rintro (h | ⟨-, h⟩)
        · exact hrange h
        · exact hhigh.mp hwrapped h
      next hwrapped =>
        exact iff_of_true rfl (.inr ⟨hlong, not_not.mp fun h => hwrapped (hhigh.mpr h)⟩)
  · -- What it is replaced by is a zero or a -1 in 32 bits.
    have hrange : ¬(0 ≤ n ∧ n ≤ 255) := fun h =>
      hlong ⟨by omega, Int.le_trans h.2 (by decide)⟩
    rw [if_neg hrange]
    refine iff_of_false ?_ fun h => h.elim hrange fun h => hlong h.1
    rw [saturateLong]
    split
    · exact Option.some_ne_none _
    next habove =>
      rw [if_pos (Int.not_le.mp fun hle => hlong ⟨Int.not_lt.mp habove, hle⟩)]
      exact Option.some_ne_none _

/-! ## Both -/

/-- The texts for which `-F` does what it should: those of numbers that are small enough, or that
are still no flow label when only 32 bits of them are left, or that have no 64 bits; and those
without a number, if there is anything. -/
def FlowSound (str : CString) : Prop :=
  Begins str ∧ ∀ n, Denotes str n →
    0 ≤ n ∧ n ≤ 0xfffff ∨ 2 ^ 64 ≤ |n| ∨ 0xfffff < n % 2 ^ 32

/-- The same of `-Q`, where a number out of range has to fit in a `long` and to be positive when
only 32 bits of it are left. -/
def TosSound (str : CString) : Prop :=
  Begins str ∧ ∀ n, Denotes str n →
    0 ≤ n ∧ n ≤ 255 ∨ InLong n ∧ 255 < n % 2 ^ 32 ∧ n % 2 ^ 32 < 2 ^ 31

theorem numbers_right (str : CString) :
    (Right parseflow 0xfffff str ↔ FlowSound str) ∧ (Right parsetos 255 str ↔ TosSound str) := by
  constructor
  · rw [right_iff parseflow_parses, FlowSound]
    exact and_congr_right fun _ => forall₂_congr fun n _ => flow_range_iff n
  · rw [right_iff parsetos_parses, TosSound]
    exact and_congr_right fun _ => forall₂_congr fun n _ => tos_range_iff n

/-- 2 ^ 32 + 5 is taken for the flow label 5, and -1 is taken for a type of service. -/
theorem numbers_taken :
    ¬Right parseflow 0xfffff ⟨ascii "4294967301", by decide⟩ ∧
      ¬Right parsetos 255 ⟨ascii "-1", by decide⟩ := by
  constructor
  · intro h
    have hread : Denotes ⟨ascii "4294967301", by decide⟩ 4294967301 := scan_end_iff.mp rfl
    have htaken := (h 5).mp (by decide)
    cases hread.unique htaken.1
  · intro h
    have htaken := (h (-1)).mp (by decide)
    exact absurd htaken.2.1 (by decide)

end Coping.Numbers
