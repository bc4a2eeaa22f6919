import Coping.Library.DecimalFraction
import Coping.Ping.Reply
import Mathlib.Algebra.Order.AbsoluteValue.Basic
import Mathlib.Tactic.Linarith
import Mathlib.Tactic.NormNum
import Mathlib.Tactic.Positivity

/-!
# The time that a reply shows

A time is rounded by half of what is cut off behind its last place before it is cut, and each
range of times begins where that carries. So no time gets a digit more than its range has, and
the ranges join.
-/

namespace Coping.ReplyTime

open CFormat

/-- The places behind the point that the format has. -/
def announced (triptime : Int) : Nat :=
  if 100000 - 50 ≤ triptime then 0
  else if 10000 - 5 ≤ triptime then 1
  else if 1000 ≤ triptime then 2
  else 3

/-- With `-3` there are always three. -/
def places (optRttPrecision : Bool) (triptime : Int) : Nat :=
  if optRttPrecision then 3 else announced triptime

/-- What the last place stands for, in microseconds. -/
def lastPlace (optRttPrecision : Bool) (triptime : Int) : Nat :=
  10 ^ (3 - places optRttPrecision triptime)

/-- The time in last places, the nearest number of them. -/
def mantissa (optRttPrecision : Bool) (triptime : Int) : Nat :=
  (triptime + (lastPlace optRttPrecision triptime / 2 : Nat)).toNat /
    lastPlace optRttPrecision triptime

/-- Rounded to its last place, in microseconds. -/
def shown (optRttPrecision : Bool) (triptime : Int) : Nat :=
  lastPlace optRttPrecision triptime * mantissa optRttPrecision triptime

theorem places_plain (t : Int) : places false t = announced t := if_neg Bool.false_ne_true

theorem places_precise (t : Int) : places true t = 3 := if_pos rfl

theorem places_cases (optRttPrecision : Bool) (t : Int) :
    (places optRttPrecision t = 0 ∧ optRttPrecision = false ∧ 99950 ≤ t) ∨
      (places optRttPrecision t = 1 ∧ optRttPrecision = false ∧ 9995 ≤ t ∧ t < 99950) ∨
      (places optRttPrecision t = 2 ∧ optRttPrecision = false ∧ 1000 ≤ t ∧ t < 9995) ∨
      (places optRttPrecision t = 3 ∧ (optRttPrecision = true ∨ t < 1000)) := by
  cases optRttPrecision with
  | true => exact .inr (.inr (.inr ⟨rfl, .inl rfl⟩))
  | false =>
      rw [places_plain, announced]
      grind

section Text

variable {optRttPrecision : Bool} {t : Int}

theorem truncated_of_le {size : Nat} {text : List UInt8} (h : text.length ≤ size - 1) :
    truncated size text = text :=
  List.take_of_length_le h

/-- A number of microseconds with its last places cut off: the digits on the two sides of the
point are a number of last places. -/
theorem read_cut {width part n : Nat} (places : part * 10 ^ width = 1000) (positive : 0 < width)
    (le : width ≤ 3) (small : n < 10 ^ 10) :
    DecimalFraction.read (truncated 30 (decimal (n / 1000 : Nat) ++ ascii "." ++
      zeroPadded width (n % 1000 / part : Nat))) = some ⟨n / part, width⟩ := by
  have hfits : n % 1000 / part < 10 ^ width := by
    apply Nat.div_lt_of_lt_mul
    rw [places]
    exact Nat.mod_lt n (by decide)
  have hpart : 0 < part := by
    apply Nat.pos_of_ne_zero
    rintro rfl
    rw [Nat.zero_mul] at places
    exact absurd places (by decide)
  have hvalue : n / 1000 * 10 ^ width + n % 1000 / part = n / part := by
    conv_rhs => rw [← Nat.div_add_mod n 1000, ← places, Nat.mul_assoc, Nat.mul_add_div hpart]
    rw [places, Nat.mul_comm]
  have hfront : (decimal (n / 1000 : Nat)).length ≤ 9 := length_decimal_le (k := 7) (by omega)
  have hback := (DecimalFraction.zeroPadded_spec positive hfits).1
  have hpoint : (ascii ".").length = 1 := rfl
  rw [truncated_of_le, DecimalFraction.read_point positive hfits, hvalue]
  rw [List.length_append, List.length_append, hback, hpoint]
  omega

/-- The two numbers that are written are those of `read_cut`. -/
theorem tdiv_rounded (nonneg : 0 ≤ t) (half part : Nat) :
    (t + half).tdiv 1000 = ((t + half).toNat / 1000 : Nat) ∧
      ((t + half).tmod 1000).tdiv part = ((t + half).toNat % 1000 / part : Nat) := by
  obtain ⟨n, hn⟩ := Int.eq_ofNat_of_zero_le (Int.add_nonneg nonneg (Int.natCast_nonneg half))
  rw [hn, Int.toNat_natCast]
  exact ⟨rfl, rfl⟩

theorem read_rounded {half part width : Nat} (nonneg : 0 ≤ t) (inRange : t ≤ 2147999999)
    (small : half ≤ 500) (places : part * 10 ^ width = 1000) (positive : 0 < width)
    (le : width ≤ 3) :
    DecimalFraction.read (truncated 30 (decimal ((t + half).tdiv 1000) ++ ascii "." ++
      zeroPadded width (((t + half).tmod 1000).tdiv part))) =
        some ⟨(t + half).toNat / part, width⟩ := by
  obtain ⟨hnum, hdec⟩ := tdiv_rounded nonneg half part
  rw [hnum, hdec]
  exact read_cut places positive le (by omega)

theorem read_replyTime (nonneg : 0 ≤ t) (inRange : t ≤ 2147999999) :
    DecimalFraction.read (replyTime optRttPrecision t) =
      some ⟨mantissa optRttPrecision t, places optRttPrecision t⟩ := by
  obtain ⟨hplaces, rfl, hlow⟩ | ⟨hplaces, rfl, hlow, hhigh⟩ | ⟨hplaces, rfl, hlow, hhigh⟩ |
    ⟨hplaces, hexact⟩ := places_cases optRttPrecision t
  · obtain ⟨hnum, -⟩ := tdiv_rounded nonneg 500 1000
    have hlength : (decimal ((t + (500 : Nat)).toNat / 1000 : Nat)).length ≤ 9 :=
      length_decimal_le (k := 7) (by omega)
    rw [replyTime, if_neg Bool.false_ne_true, if_pos (by omega), mantissa, lastPlace, hplaces]
    change DecimalFraction.read (truncated 30 (decimal ((t + (500 : Nat)).tdiv 1000))) = _
    rw [hnum, truncated_of_le (by omega), DecimalFraction.read_whole]
    rfl
  · rw [replyTime, if_neg Bool.false_ne_true, if_neg (by omega), if_pos (by omega), mantissa,
      lastPlace, hplaces]
    exact @read_rounded t _ 100 _ nonneg inRange (by decide) rfl (by decide) (by decide)
  · rw [replyTime, if_neg Bool.false_ne_true, if_neg (by omega), if_neg (by omega),
      if_pos (by omega), mantissa, lastPlace, hplaces]
    exact @read_rounded t _ 10 _ nonneg inRange (by decide) rfl (by decide) (by decide)
  · have hread := @read_rounded t 0 1 3 nonneg inRange (by decide) rfl
      (by decide) (by decide)
    rw [Int.natCast_zero, Int.add_zero, Int.natCast_one, Int.tdiv_one] at hread
    have htext : replyTime optRttPrecision t =
        truncated 30 (decimal (t.tdiv 1000) ++ ascii "." ++ zeroPadded 3 (t.tmod 1000)) := by
      rw [replyTime]
      cases optRttPrecision with
      | true => rfl
      | false =>
          have hsmall : t < 1000 := hexact.resolve_left Bool.false_ne_true
          rw [if_neg Bool.false_ne_true, if_neg (by omega), if_neg (by omega), if_neg (by omega)]
    rw [htext, hread, mantissa, lastPlace, hplaces]
    simp

/-- A place is a thousandth, or the power of ten that is cut off. -/
theorem lastPlace_mul (optRttPrecision : Bool) (t : Int) :
    lastPlace optRttPrecision t * 10 ^ places optRttPrecision t = 1000 := by
  rw [lastPlace]
  obtain ⟨hplaces, -⟩ | ⟨hplaces, -⟩ | ⟨hplaces, -⟩ | ⟨hplaces, -⟩ :=
    places_cases optRttPrecision t <;>
  · rw [hplaces]
    rfl

theorem value_eq (optRttPrecision : Bool) (t : Int) :
    DecimalFraction.value ⟨mantissa optRttPrecision t, places optRttPrecision t⟩ =
        (shown optRttPrecision t : ℚ) / 1000 ∧
      DecimalFraction.unit ⟨mantissa optRttPrecision t, places optRttPrecision t⟩ =
        (lastPlace optRttPrecision t : ℚ) / 1000 := by
  have hthousand : (lastPlace optRttPrecision t : ℚ) * 10 ^ places optRttPrecision t = 1000 := by
    exact_mod_cast lastPlace_mul optRttPrecision t
  have hpow : (10 : ℚ) ^ places optRttPrecision t ≠ 0 := by positivity
  constructor
  · rw [DecimalFraction.value, shown, Nat.cast_mul, div_eq_div_iff hpow (by norm_num),
      ← hthousand]
    ring
  · rw [DecimalFraction.unit, div_eq_div_iff hpow (by norm_num), hthousand, one_mul]

/-- Half a last place at most is added or taken away. -/
theorem shown_near (optRttPrecision : Bool) (nonneg : 0 ≤ t) :
    2 * |(shown optRttPrecision t : Int) - t| ≤ lastPlace optRttPrecision t := by
  have hpositive : 0 < lastPlace optRttPrecision t := Nat.pow_pos (by decide)
  have hdiv := Nat.div_add_mod (t + (lastPlace optRttPrecision t / 2 : Nat)).toNat
    (lastPlace optRttPrecision t)
  have hmod := Nat.mod_lt (t + (lastPlace optRttPrecision t / 2 : Nat)).toNat hpositive
  rw [← mantissa, ← shown] at hdiv
  rcases abs_cases ((shown optRttPrecision t : Int) - t) with ⟨habs, -⟩ | ⟨habs, -⟩ <;>
  · rw [habs]
    omega

/-- A higher range begins where the one below it has come to. -/
theorem shown_mono {s : Int} (nonneg : 0 ≤ s) (le : s ≤ t) : shown false s ≤ shown false t := by
  have hshown : ∀ u : Int, shown false u =
      lastPlace false u * ((u + (lastPlace false u / 2 : Nat)).toNat / lastPlace false u) :=
    fun _ => rfl
  rw [hshown, hshown, lastPlace, lastPlace]
  obtain ⟨hs, -, hlow⟩ | ⟨hs, -, hlow, hhigh⟩ | ⟨hs, -, hlow, hhigh⟩ | ⟨hs, hlow⟩ :=
    places_cases false s <;>
  obtain ⟨ht, -, hlow'⟩ | ⟨ht, -, hlow', hhigh'⟩ | ⟨ht, -, hlow', hhigh'⟩ | ⟨ht, hlow'⟩ :=
    places_cases false t <;>
  · rw [hs, ht]
    norm_num at hlow hlow' ⊢
    omega

theorem shown_precise (nonneg : 0 ≤ t) : (shown true t : Int) = t := by
  rw [shown, mantissa, lastPlace, places_precise]
  simp [nonneg]

end Text

/-- The time that is shown is the nearest one with the places of its range, of more time no
less is shown, and with `-3` it is the time itself. -/
theorem time_shown (t : Int) (nonneg : 0 ≤ t) (inRange : t ≤ 2147999999) :
    (∃ d, DecimalFraction.read (replyTime false t) = some d ∧ d.places = announced t ∧
      |d.value - t / 1000| ≤ d.unit / 2 ∧
      ∀ s, 0 ≤ s → s ≤ t →
        ∃ e, DecimalFraction.read (replyTime false s) = some e ∧ e.value ≤ d.value) ∧
      ∃ d, DecimalFraction.read (replyTime true t) = some d ∧ d.places = 3 ∧
        d.value = t / 1000 := by
  have hvalue : |(shown false t : ℚ) / 1000 - t / 1000| ≤ (lastPlace false t : ℚ) / 1000 / 2 := by
    have hnear : 2 * |(shown false t : ℚ) - t| ≤ lastPlace false t := by
      exact_mod_cast shown_near false nonneg
    rw [← sub_div, abs_div, abs_of_pos (by norm_num : (0 : ℚ) < 1000)]
    linarith
  constructor
  · refine ⟨_, read_replyTime nonneg inRange, places_plain t, ?_, fun s hs hle => ?_⟩
    · rw [(value_eq false t).1, (value_eq false t).2]
      exact hvalue
    · refine ⟨_, read_replyTime hs (le_trans hle inRange), ?_⟩
      have hmono : (shown false s : ℚ) ≤ shown false t := by
        exact_mod_cast shown_mono hs hle
      rw [(value_eq false s).1, (value_eq false t).1]
      linarith
  · refine ⟨_, read_replyTime nonneg inRange, places_precise t, ?_⟩
    have hcast : (shown true t : ℚ) = t := by
      exact_mod_cast shown_precise nonneg
    rw [(value_eq true t).1, hcast]

/-- A microsecond below a hundred milliseconds, which has no place left. -/
theorem time_shown_carried :
    (0 ≤ 99999 ∧ (99999 : Int) ≤ 2147999999) ∧
      (∃ d, DecimalFraction.read (replyTime false 99999) = some d ∧ d.places = announced 99999 ∧
        |d.value - (99999 : Int) / 1000| ≤ d.unit / 2 ∧
        ∀ s, 0 ≤ s → s ≤ 99999 →
          ∃ e, DecimalFraction.read (replyTime false s) = some e ∧ e.value ≤ d.value) ∧
      ∃ d, DecimalFraction.read (replyTime true 99999) = some d ∧ d.places = 3 ∧
        d.value = (99999 : Int) / 1000 :=
  ⟨by decide, time_shown 99999 (by decide) (by decide)⟩

end Coping.ReplyTime
