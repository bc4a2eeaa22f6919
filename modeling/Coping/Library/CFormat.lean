import Mathlib.Algebra.Ring.Int.Defs
import Mathlib.Algebra.Ring.Nat
import Mathlib.Data.List.Basic

/-!
# Formatted output of C

What `snprintf` writes for the conversions used here. A C string is the list of the
bytes before its terminator.

`toDouble` is the rounding of IEEE 754 double arithmetic, to nearest with ties to
even, on fractions of naturals whose quotient is zero or in the normal range. A
double is again such a fraction, with a power of two below.
-/

namespace CFormat

/-- The bytes of a literal. -/
def ascii (text : String) : List UInt8 := text.toList.map fun c => UInt8.ofNat c.toNat

/-- A literal is a list of characters; its bytes are found without decoding it. -/
theorem ascii_ofList (text : List Char) :
    ascii (String.ofList text) = text.map fun c => UInt8.ofNat c.toNat := by
  rw [ascii, String.toList_ofList]

theorem ascii_length (text : List Char) : (ascii (String.ofList text)).length = text.length := by
  rw [ascii_ofList, List.length_map]

/-- `snprintf` into a buffer of `size` bytes. -/
def truncated (size : Nat) (bytes : List UInt8) : List UInt8 := bytes.take (size - 1)

/-- `%ld` and `%d`. -/
def decimal (x : Int) : List UInt8 := ascii (toString x)

/-- The decimal digits of a natural number. -/
def digits (n : Nat) : List UInt8 := (Nat.toDigits 10 n).map fun c => UInt8.ofNat c.toNat

/-- The number that decimal digits stand for. -/
def natOfDigits (ds : List UInt8) : Nat := ds.foldl (fun n c => n * 10 + (c.toNat - 0x30)) 0

def intOfDecimal : List UInt8 → Int
  | 0x2d :: ds => -(natOfDigits ds : Int)
  | ds => natOfDigits ds

/-- `%03ld`. The sign is one of the three. -/
def padded3 (x : Int) : List UInt8 :=
  let ds := digits x.natAbs
  if x < 0 then 0x2d :: (List.replicate (2 - ds.length) 0x30 ++ ds)
  else List.replicate (3 - ds.length) 0x30 ++ ds

/-- `%0*ld`. The sign is one of the characters. -/
def zeroPadded (width : Nat) (x : Int) : List UInt8 :=
  let ds := digits x.natAbs
  if x < 0 then 0x2d :: (List.replicate (width - 1 - ds.length) 0x30 ++ ds)
  else List.replicate (width - ds.length) 0x30 ++ ds

/-- The digits of a natural number to a base, of three characters at least with `%03o` and of
two with `%02x`. -/
def based (base width n : Nat) : List UInt8 :=
  let ds := (Nat.toDigits base n).map fun c => UInt8.ofNat c.toNat
  List.replicate (width - ds.length) 0x30 ++ ds

def hexDigit (n : Nat) : UInt8 := UInt8.ofNat (if n < 10 then 0x30 + n else 0x61 + (n - 10))

/-- `%04x` of a byte. -/
def hex4 (c : UInt8) : List UInt8 :=
  [0x30, 0x30, hexDigit (c.toNat / 16), hexDigit (c.toNat % 16)]

/-! ## Decimal numbers -/

theorem decimal_natCast (n : Nat) : decimal n = digits n := by
  change ascii (Nat.repr n) = _
  exact ascii_ofList _

theorem decimal_negSucc (n : Nat) : decimal (Int.negSucc n) = 0x2d :: digits (n + 1) := by
  have hchars : (toString (Int.negSucc n)).toList = '-' :: Nat.toDigits 10 (n + 1) := by
    simp [Int.repr, Nat.repr]
  rw [decimal, ascii, hchars]
  rfl

theorem digits_of_lt {n : Nat} (h : n < 10) : digits n = [UInt8.ofNat (0x30 + n)] := by
  rw [digits, Nat.toDigits_of_lt_base h, List.map_singleton, Nat.toNat_digitChar_of_lt_ten h]

theorem digits_of_le {n : Nat} (h : 10 ≤ n) :
    digits n = digits (n / 10) ++ [UInt8.ofNat (0x30 + n % 10)] := by
  rw [digits, Nat.toDigits_of_base_le (by decide) h, List.map_append, List.map_singleton,
    Nat.toNat_digitChar_of_lt_ten (Nat.mod_lt n (by decide))]
  rfl

/-- What is written for one digit. -/
theorem digit_spec {d : Nat} (h : d < 10) :
    (UInt8.ofNat (0x30 + d)).toNat = 0x30 + d ∧ 0x30 ≤ UInt8.ofNat (0x30 + d) ∧
      UInt8.ofNat (0x30 + d) ≤ 0x39 := by
  have hlt : 0x30 + d < 256 := by omega
  have hvalue : (UInt8.ofNat (0x30 + d)).toNat = 0x30 + d := by
    rw [UInt8.toNat_ofNat', Nat.mod_eq_of_lt hlt]
  refine ⟨hvalue, UInt8.le_iff_toNat_le.mpr ?_, UInt8.le_iff_toNat_le.mpr ?_⟩
  · rw [hvalue]
    exact Nat.le_add_right _ _
  · rw [hvalue]
    change 0x30 + d ≤ 57
    omega

theorem isDigit_of_mem_digits {n : Nat} {c : UInt8} (h : c ∈ digits n) : 0x30 ≤ c ∧ c ≤ 0x39 := by
  induction n using Nat.strongRecOn generalizing c with
  | ind n ih =>
    by_cases hlt : n < 10
    · rw [digits_of_lt hlt, List.mem_singleton] at h
      exact h ▸ (digit_spec hlt).2
    · rw [digits_of_le (by omega), List.mem_append, List.mem_singleton] at h
      rcases h with h | h
      · exact ih (n / 10) (by omega) h
      · exact h ▸ (digit_spec (Nat.mod_lt n (by decide))).2

/-- A number does not begin with a zero, unless it is zero. -/
theorem digits_eq_cons (n : Nat) :
    ∃ c rest, digits n = c :: rest ∧ (c = 0x30 → n = 0 ∧ rest = []) := by
  induction n using Nat.strongRecOn with
  | ind n ih =>
    by_cases hlt : n < 10
    · refine ⟨_, [], digits_of_lt hlt, ?_⟩
      intro hzero
      have hvalue := (digit_spec hlt).1
      rw [hzero] at hvalue
      change 0x30 = 0x30 + n at hvalue
      exact ⟨by omega, rfl⟩
    · obtain ⟨c, rest, hdigits, hzero⟩ := ih (n / 10) (by omega)
      refine ⟨c, rest ++ [UInt8.ofNat (0x30 + n % 10)], ?_, ?_⟩
      · rw [digits_of_le (by omega), hdigits]
        rfl
      · intro hc
        have := (hzero hc).1
        omega

theorem natOfDigits_digits (n : Nat) : natOfDigits (digits n) = n := by
  induction n using Nat.strongRecOn with
  | ind n ih =>
    by_cases hlt : n < 10
    · rw [digits_of_lt hlt]
      change 0 * 10 + ((UInt8.ofNat (0x30 + n)).toNat - 0x30) = n
      rw [(digit_spec hlt).1]
      omega
    · have hlast := (digit_spec (Nat.mod_lt n (by decide : 0 < 10))).1
      have hfront := ih (n / 10) (by omega)
      rw [natOfDigits] at hfront ⊢
      rw [digits_of_le (by omega), List.foldl_append, hfront]
      change n / 10 * 10 + ((UInt8.ofNat (0x30 + n % 10)).toNat - 0x30) = n
      rw [hlast]
      omega

theorem intOfDecimal_decimal (x : Int) : intOfDecimal (decimal x) = x := by
  cases x with
  | ofNat n =>
      rw [Int.ofNat_eq_natCast, decimal_natCast]
      obtain ⟨c, rest, hdigits, -⟩ := digits_eq_cons n
      have hc : c ≠ 0x2d := by
        rintro rfl
        have := isDigit_of_mem_digits (hdigits ▸ List.mem_cons_self : (0x2d : UInt8) ∈ digits n)
        exact absurd this.1 (by decide)
      have hvalue := natOfDigits_digits n
      rw [hdigits] at hvalue ⊢
      rw [intOfDecimal]
      · rw [hvalue]
      · intro ds hcons
        exact hc (List.cons.inj hcons).1
  | negSucc n =>
      rw [decimal_negSucc, intOfDecimal, natOfDigits_digits]
      rfl

theorem decimal_ne_nil (x : Int) : decimal x ≠ [] := by
  cases x with
  | ofNat n =>
      obtain ⟨c, rest, hdigits, -⟩ := digits_eq_cons n
      rw [Int.ofNat_eq_natCast, decimal_natCast, hdigits]
      exact List.cons_ne_nil _ _
  | negSucc n =>
      rw [decimal_negSucc]
      exact List.cons_ne_nil _ _

theorem length_digits_le {n k : Nat} (bound : n < 10 ^ (k + 1)) :
    (digits n).length ≤ k + 1 := by
  induction k generalizing n with
  | zero =>
      rw [digits_of_lt (by omega)]
      exact Nat.le_refl _
  | succ k ih =>
      by_cases hlt : n < 10
      · rw [digits_of_lt hlt, List.length_singleton]
        omega
      · have hfront : n / 10 < 10 ^ (k + 1) := by
          rw [Nat.div_lt_iff_lt_mul (by decide), ← Nat.pow_succ]
          exact bound
        rw [digits_of_le (by omega), List.length_append, List.length_singleton]
        exact Nat.succ_le_succ (ih hfront)

theorem length_decimal_le {x : Int} {k : Nat} (bound : x.natAbs < 10 ^ (k + 1)) :
    (decimal x).length ≤ k + 2 := by
  cases x with
  | ofNat n =>
      rw [Int.ofNat_eq_natCast, decimal_natCast]
      exact Nat.le_succ_of_le (length_digits_le bound)
  | negSucc n =>
      rw [decimal_negSucc, List.length_cons]
      exact Nat.succ_le_succ (length_digits_le bound)

theorem length_padded3_le {x : Int} (bound : x.natAbs < 1000) : (padded3 x).length ≤ 4 := by
  have hlength : (digits x.natAbs).length ≤ 3 := length_digits_le bound
  rw [padded3]
  split
  · rw [List.length_cons, List.length_append, List.length_replicate]
    omega
  · rw [List.length_append, List.length_replicate]
    omega

theorem nonzero_digits (n : Nat) : 0 ∉ digits n :=
  fun h => absurd (isDigit_of_mem_digits h).1 (by decide)

theorem nonzero_decimal (x : Int) : 0 ∉ decimal x := by
  cases x with
  | ofNat n =>
      rw [Int.ofNat_eq_natCast, decimal_natCast]
      exact nonzero_digits n
  | negSucc n =>
      rw [decimal_negSucc, List.mem_cons, not_or]
      exact ⟨by decide, nonzero_digits (n + 1)⟩

theorem nonzero_padded3 (x : Int) : 0 ∉ padded3 x := by
  rw [padded3]
  split
  · rw [List.mem_cons, List.mem_append, List.mem_replicate, not_or, not_or]
    exact ⟨by decide, fun h => absurd h.2 (by decide), nonzero_digits x.natAbs⟩
  · rw [List.mem_append, List.mem_replicate, not_or]
    exact ⟨fun h => absurd h.2 (by decide), nonzero_digits x.natAbs⟩

/-- The nearest integer, of two the even one. -/
def nearest (num den : Nat) : Nat :=
  let q := num / den
  let r := num % den
  if 2 * r < den then q else if den < 2 * r then q + 1 else q + q % 2

/-- The exponent of the power of two at or below a positive fraction. -/
def binaryExponent (num den : Nat) : Int :=
  let guess : Int := (Nat.log2 num : Int) - Nat.log2 den
  if num * 2 ^ (-guess).toNat < den * 2 ^ guess.toNat then guess - 1 else guess

def toDouble (num den : Nat) : Nat × Nat :=
  if num = 0 then (0, 1)
  else
    -- The last of the 53 bits of the mantissa.
    let ulp := binaryExponent num den - 52
    (nearest (num * 2 ^ (-ulp).toNat) (den * 2 ^ ulp.toNat) * 2 ^ ulp.toNat, 2 ^ (-ulp).toNat)

/-- Likewise in single precision. -/
def toFloat (num den : Nat) : Nat × Nat :=
  if num = 0 then (0, 1)
  else
    let ulp := binaryExponent num den - 23
    (nearest (num * 2 ^ (-ulp).toNat) (den * 2 ^ ulp.toNat) * 2 ^ ulp.toNat, 2 ^ (-ulp).toNat)

/-- `%.3f` of a fraction with a sign. -/
def fixed3 (negative : Bool) (num den : Nat) : List UInt8 :=
  let thousandths := nearest (num * 1000) den
  (if negative then ascii "-" else []) ++ decimal (thousandths / 1000 : Nat) ++ ascii "." ++
    [hexDigit (thousandths / 100 % 10), hexDigit (thousandths / 10 % 10),
      hexDigit (thousandths % 10)]

/-- `%.3f` of `x / 1000.0` for a `long`. -/
def thousandths (x : Int) : List UInt8 :=
  let converted := toDouble x.natAbs 1
  let quotient := toDouble converted.1 (converted.2 * 1000)
  fixed3 (x < 0) quotient.1 quotient.2

example : thousandths 1234 = ascii "1.234" := by decide +kernel

/-- The division is rounded, so a `long` near its maximum loses its last digits. -/
example : thousandths 9223372036854775807 = ascii "9223372036854776.000" := by decide +kernel

end CFormat
