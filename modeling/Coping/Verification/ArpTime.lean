import Coping.Library.DecimalFraction
import Coping.Verification.ArpStatistics
import Mathlib.Algebra.Order.AbsoluteValue.Basic
import Mathlib.Tactic.Linarith
import Mathlib.Tactic.NormNum

/-!
# The time in a line of arping

`recv_pack` rounds the time since the last probe to milliseconds and prints what is left in
microseconds behind the point. The half that was added to round is added to this rest as well,
so that every time is printed half a millisecond too large.
-/

namespace Coping.ArpTime

open Arping CInt CFormat

/-- A time that the clock yields. -/
structure Normal (ts : Timespec) : Prop where
  nonneg : 0 ≤ ts.tvNsec
  lt : ts.tvNsec < 1000000000

def nanos (ts : Timespec) : Int := ts.tvSec * 1000000000 + ts.tvNsec

/-- Behind what is in front of it the line shows a number of milliseconds with three places, and
it is the time that has passed, to a microsecond. -/
def ShowsElapsed (ctl : RunState) (ts : Timespec) (p : Arrival) (line : List UInt8) : Prop :=
  ∃ value d, line = replyFront ctl p ++ (ascii " " ++ value ++ ascii "ms\n") ∧
    DecimalFraction.read value = some d ∧ d.places = 3 ∧
    |d.value * 1000000 - ((nanos ts - nanos ctl.last : Int) : ℚ)| ≤ 1000

/-- The microseconds since the last probe, rounded. -/
def microseconds (ts last : Timespec) : Int :=
  (ts.tvSec - last.tvSec) * 1000000 + (ts.tvNsec - last.tvNsec + 500).tdiv 1000

variable {ctl ctl' : RunState} {ts last : Timespec} {p : Arrival} {line : List UInt8}
variable {returned : Returned}

/-- Rounding is off by less than a microsecond to below. -/
theorem microseconds_gt (hts : Normal ts) (hlast : Normal last) :
    nanos ts - nanos last - 500 < microseconds ts last * 1000 := by
  have hnonneg := hts.nonneg
  have hlt := hts.lt
  have hnonneg' := hlast.nonneg
  have hlt' := hlast.lt
  obtain ⟨d, hd⟩ : ∃ d, d = ts.tvNsec - last.tvNsec + 500 := ⟨_, rfl⟩
  have hquotient : d - 1000 < d.tdiv 1000 * 1000 := by
    rcases Int.le_total 0 d with hsign | hsign
    · rw [Int.tdiv_eq_ediv_of_nonneg hsign]
      omega
    · have hneg : d.tdiv 1000 = -((-d) / 1000) := by
        rw [← Int.tdiv_eq_ediv_of_nonneg (by omega), Int.neg_tdiv, Int.neg_neg]
      rw [hneg]
      omega
  rw [microseconds, ← hd, nanos, nanos]
  omega

theorem microseconds_nonneg (hts : Normal ts) (hlast : Normal last)
    (ordered : nanos last ≤ nanos ts) : 0 ≤ microseconds ts last := by
  have hgt := microseconds_gt hts hlast
  omega

/-- The two numbers make up the microseconds and half a millisecond. -/
theorem elapsedParts_eq {parts : Int × Int} (h : elapsedParts ts last = some parts)
    (nonneg : 0 ≤ microseconds ts last) :
    parts.1 = ((microseconds ts last + 500).toNat / 1000 : Nat) ∧
      parts.2 = ((microseconds ts last + 500).toNat % 1000 : Nat) := by
  obtain ⟨sec, hsec, h⟩ := Option.bind_eq_some_iff.mp h
  obtain ⟨sec', hsec', h⟩ := Option.bind_eq_some_iff.mp h
  obtain ⟨nsec, hnsec, h⟩ := Option.bind_eq_some_iff.mp h
  obtain ⟨nsec', hnsec', h⟩ := Option.bind_eq_some_iff.mp h
  obtain ⟨usecs, husecs, h⟩ := Option.bind_eq_some_iff.mp h
  obtain ⟨rounded, hrounded, h⟩ := Option.bind_eq_some_iff.mp h
  obtain ⟨whole, hwhole, h⟩ := Option.bind_eq_some_iff.mp h
  obtain ⟨whole', hwhole', h⟩ := Option.bind_eq_some_iff.mp h
  obtain ⟨rest, hrest, h⟩ := Option.bind_eq_some_iff.mp h
  cases h
  obtain ⟨-, rfl⟩ := checkedLong_eq_some.mp hsec
  obtain ⟨-, rfl⟩ := checkedLong_eq_some.mp hsec'
  obtain ⟨-, rfl⟩ := checkedLong_eq_some.mp hnsec
  obtain ⟨-, rfl⟩ := checkedLong_eq_some.mp hnsec'
  obtain ⟨-, rfl⟩ := checkedLong_eq_some.mp husecs
  obtain ⟨-, rfl⟩ := checkedLong_eq_some.mp hrounded
  obtain ⟨-, rfl⟩ := checkedLong_eq_some.mp hwhole
  obtain ⟨-, rfl⟩ := checkedLong_eq_some.mp hwhole'
  obtain ⟨-, rfl⟩ := checkedLong_eq_some.mp hrest
  obtain ⟨n, hn⟩ := Int.eq_ofNat_of_zero_le (show 0 ≤ microseconds ts last + 500 by omega)
  have hquotient : ((n : Int)).tdiv 1000 = (n / 1000 : Nat) := rfl
  show (microseconds ts last + 500).tdiv 1000 = _ ∧
    microseconds ts last - ((microseconds ts last + 500).tdiv 1000 * 1000 - 500) = _
  rw [hn, hquotient, Int.toNat_natCast]
  constructor
  · rfl
  · omega

/-- What is printed, if anything is, reads as half a millisecond more than the microseconds. -/
theorem read_elapsedText {text : List UInt8} (h : elapsedText ts last = some text)
    (sent : last.tvSec ≠ 0) (nonneg : 0 ≤ microseconds ts last) :
    ∃ value, text = ascii " " ++ value ++ ascii "ms\n" ∧
      DecimalFraction.read value = some ⟨(microseconds ts last + 500).toNat, 3⟩ := by
  rw [elapsedText, if_pos sent] at h
  obtain ⟨parts, hparts, rfl⟩ := Option.map_eq_some_iff.mp h
  obtain ⟨hmsecs, husecs⟩ := elapsedParts_eq hparts nonneg
  obtain ⟨n, hn⟩ : ∃ n, n = (microseconds ts last + 500).toNat := ⟨_, rfl⟩
  rw [← hn] at hmsecs husecs
  refine ⟨decimal parts.1 ++ ascii "." ++ zeroPadded 3 parts.2, ?_, ?_⟩
  · simp only [List.append_assoc]
  · rw [← hn, hmsecs, husecs]
    exact @DecimalFraction.read_shifted 3 (by decide) n

/-- The line ends with the time. -/
theorem line_of_recvPack (h : recvPack ctl ts p = some (ctl', line, returned))
    (passed : passes ctl p = true) (loud : ctl.quiet = false) :
    ∃ text, elapsedText ts ctl.last = some text ∧ line = replyFront ctl p ++ text := by
  rcases recvPack_cases h with ⟨hdropped, -⟩ | ⟨-, printed, hprinted, hkinds⟩
  · rw [passed] at hdropped
    cases hdropped
  · have hsame : line = printed := by
      rcases hkinds with ⟨-, -, hr⟩ | ⟨-, counted, -, hr | hr⟩
      · cases hr
        rfl
      · cases hr
        rfl
      · cases hr
        rfl
    rw [replyLine, loud] at hprinted
    obtain ⟨text, htext, rfl⟩ := Option.map_eq_some_iff.mp hprinted
    exact ⟨text, htext, hsame⟩

/-- What a line shows is half a millisecond more than the time that has passed. -/
theorem not_showsElapsed (hts : Normal ts) (hlast : Normal ctl.last)
    (ordered : nanos ctl.last ≤ nanos ts) (sent : ctl.last.tvSec ≠ 0)
    (passed : passes ctl p = true) (loud : ctl.quiet = false)
    (hrecv : recvPack ctl ts p = some (ctl', line, returned)) : ¬ShowsElapsed ctl ts p line := by
  rintro ⟨value, d, hline, hread, hplaces, hclose⟩
  obtain ⟨text, htext, hfront⟩ := line_of_recvPack hrecv passed loud
  obtain ⟨value', hvalue', hread'⟩ :=
    read_elapsedText htext sent (microseconds_nonneg hts hlast ordered)
  -- the front of the line is known, and so is what is around the number
  have hsame : value' = value := by
    rw [hfront, hvalue'] at hline
    exact List.append_cancel_left (List.append_cancel_right (List.append_cancel_left hline))
  rw [← hsame, hread'] at hread
  cases hread
  have hgt := microseconds_gt hts hlast
  have hnonneg := microseconds_nonneg hts hlast ordered
  have hnat : ((microseconds ts ctl.last + 500).toNat : ℚ) =
      ((microseconds ts ctl.last + 500 : Int) : ℚ) := by
    rw [← Int.cast_natCast, Int.toNat_of_nonneg (by omega)]
  have hfar : ((nanos ts - nanos ctl.last : Int) : ℚ) + 499500 <
      ((microseconds ts ctl.last + 500 : Int) : ℚ) * 1000 := by
    exact_mod_cast (show nanos ts - nanos ctl.last + 499500 <
      (microseconds ts ctl.last + 500) * 1000 by omega)
  rw [DecimalFraction.value, hnat] at hclose
  have hupper := (abs_le.mp hclose).2
  push_cast at hupper hfar
  linarith

/-- No line shows the time since the last probe. -/
theorem elapsed_never_shown (ctl : RunState) (ts : Timespec) (p : Arrival) (hts : Normal ts)
    (hlast : Normal ctl.last) (ordered : nanos ctl.last ≤ nanos ts) (sent : ctl.last.tvSec ≠ 0)
    (passed : passes ctl p = true) (loud : ctl.quiet = false) :
    ¬∃ ctl' line returned, recvPack ctl ts p = some (ctl', line, returned) ∧
      ShowsElapsed ctl ts p line := by
  rintro ⟨ctl', line, returned, hrecv, shows⟩
  exact not_showsElapsed hts hlast ordered sent passed loud hrecv shows

/-- An answer that comes 5 ms after the probe. -/
def lateAnswer : Arrival where
  buf i := ArpStatistics.neighbourBytes.getD i 0
  len := 28
  FROM := { ArpStatistics.oneProbe.me with pkttype := PACKET_HOST }

theorem elapsed_never_shown_late :
    ¬∃ ctl' line returned, recvPack ArpStatistics.afterProbe.ctl
        { tvSec := 100, tvNsec := 5000000 } lateAnswer = some (ctl', line, returned) ∧
      ShowsElapsed ArpStatistics.afterProbe.ctl { tvSec := 100, tvNsec := 5000000 }
        lateAnswer line :=
  elapsed_never_shown ArpStatistics.afterProbe.ctl { tvSec := 100, tvNsec := 5000000 } lateAnswer
    ⟨by decide, by decide⟩ ⟨by decide, by decide⟩ (by decide) (by decide) (by decide) rfl

/-- After 5 ms 5.5 are printed. -/
theorem elapsed_shown_wrong :
    elapsedText { tvSec := 100, tvNsec := 5000000 } { tvSec := 100 } =
        some (ascii " 5.500ms\n") ∧
      ∃ ctl' line returned, recvPack ArpStatistics.afterProbe.ctl
        { tvSec := 100, tvNsec := 5000000 } lateAnswer = some (ctl', line, returned) ∧
          ¬ShowsElapsed ArpStatistics.afterProbe.ctl { tvSec := 100, tvNsec := 5000000 }
            lateAnswer line := by
  refine ⟨by decide, _, _, _, rfl, ?_⟩
  apply not_showsElapsed ⟨by decide, by decide⟩ ⟨by decide, by decide⟩ (by decide) (by decide)
    (by decide) rfl rfl

end Coping.ArpTime
