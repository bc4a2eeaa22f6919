import Coping.Library.Json

/-!
# Texts that need no escaping

The numbers of `snprintf` stand for themselves between quotes.
-/

namespace CFormat

open Json (isPlain)

theorem isPlain_of_digit {c : UInt8} (h : 0x30 ≤ c ∧ c ≤ 0x39) : isPlain c = true := by
  rw [Json.isPlain_iff]
  obtain ⟨hlower, hupper⟩ := h
  refine ⟨?_, ?_, ?_⟩
  · rintro rfl
    exact absurd hlower (by decide)
  · rintro rfl
    exact absurd hupper (by decide)
  · intro hlt
    have hlower' : (0x20 : UInt8) ≤ c := UInt8.le_trans (by decide) hlower
    exact absurd hlt (UInt8.not_lt.mpr hlower')

theorem plain_digits (n : Nat) : (digits n).all isPlain = true :=
  List.all_eq_true.mpr fun _ hc => isPlain_of_digit (isDigit_of_mem_digits hc)

theorem plain_decimal (x : Int) : (decimal x).all isPlain = true := by
  cases x with
  | ofNat n =>
      rw [Int.ofNat_eq_natCast, decimal_natCast]
      exact plain_digits n
  | negSucc n =>
      rw [decimal_negSucc, List.all_cons, plain_digits]
      rfl

theorem plain_zeros (n : Nat) : (List.replicate n (0x30 : UInt8)).all isPlain = true := by
  rw [List.all_eq_true]
  intro c hc
  rw [(List.mem_replicate.mp hc).2]
  rfl

theorem plain_zeroPadded (width : Nat) (x : Int) : (zeroPadded width x).all isPlain = true := by
  rw [zeroPadded]
  split
  · rw [List.all_cons, List.all_append, plain_zeros, plain_digits]
    rfl
  · rw [List.all_append, plain_zeros, plain_digits]
    rfl

theorem plain_padded3 (x : Int) : (padded3 x).all isPlain = true := plain_zeroPadded 3 x

theorem plain_digitChar : ∀ d : Fin 16, isPlain (UInt8.ofNat (Nat.digitChar d).toNat) = true := by
  decide

theorem plain_toDigits {base : Nat} (lower : 1 < base) (upper : base ≤ 16) (n : Nat) :
    ((Nat.toDigits base n).map fun c => UInt8.ofNat c.toNat).all isPlain = true := by
  induction n using Nat.strongRecOn with
  | ind n ih =>
    by_cases hlt : n < base
    · rw [Nat.toDigits_of_lt_base hlt, List.map_singleton, List.all_cons,
        plain_digitChar ⟨n, by omega⟩]
      rfl
    · have hlast : n % base < base := Nat.mod_lt n (by omega)
      rw [Nat.toDigits_of_base_le lower (by omega), List.map_append, List.all_append,
        ih (n / base) (Nat.div_lt_self (by omega) lower), List.map_singleton, List.all_cons,
        plain_digitChar ⟨n % base, by omega⟩]
      rfl

theorem plain_based {base : Nat} (lower : 1 < base) (upper : base ≤ 16) (width n : Nat) :
    (based base width n).all isPlain = true := by
  rw [based, List.all_append, plain_zeros, plain_toDigits lower upper]
  rfl

theorem plain_truncated {bytes : List UInt8} (plain : bytes.all isPlain = true) (size : Nat) :
    (truncated size bytes).all isPlain = true :=
  List.all_eq_true.mpr fun c hc => List.all_eq_true.mp plain c (List.mem_of_mem_take hc)

theorem length_truncated {size : Nat} (positive : 0 < size) (bytes : List UInt8) :
    (truncated size bytes).length < size := by
  rw [truncated, List.length_take]
  omega

end CFormat
