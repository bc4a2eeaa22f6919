import Coping.Ping.Finish
import Coping.Ping.Json

/-!
# The final statistics in JSON

`ping_print_finish` and `ping_print_statistics` of `ping_output.c`, with `-j`: nothing is
printed but through the JSON buffer. A difference and a quotient of doubles is the exact
number here, except for the percentage, which is rounded like in C.
-/

namespace Coping

open CInt CFormat

/-- `tssub`. -/
def tssub (out sub : Timespec) : Timespec :=
  let nsec := out.tvNsec - sub.tvNsec
  if nsec < 0 then ⟨out.tvSec - 1 - sub.tvSec, nsec + 1000000000⟩
  else ⟨out.tvSec - sub.tvSec, nsec⟩

/-! ## Times -/

/-- `sprintf` of a whole part, a point and three digits. -/
def timeText (whole frac : Int) (hwhole : whole.natAbs < 10 ^ 20) (hfrac : frac.natAbs < 1000) :
    TimeText where
  bytes := decimal whole ++ 0x2e :: padded3 frac
  nonzero := by
    rw [List.mem_append, List.mem_cons, not_or, not_or]
    exact ⟨nonzero_decimal whole, by decide, nonzero_padded3 frac⟩
  fits := by
    have hlength := length_decimal_le hwhole
    have hlength' := length_padded3_le hfrac
    rw [List.length_append, List.length_cons]
    omega

theorem natAbs_toInt64_lt (x : Int) : (toInt64 x).natAbs < 10 ^ 20 := by
  rw [toInt64]
  omega

theorem natAbs_tdiv_lt {x : Int} (bound : x.natAbs < 10 ^ 20) :
    (x.tdiv 1000).natAbs < 10 ^ 20 := by
  rw [Int.natAbs_tdiv]
  exact Nat.lt_of_le_of_lt (Nat.div_le_self _ _) bound

theorem natAbs_tmod_lt (x : Int) : (x.tmod 1000).natAbs < 1000 := by
  rw [Int.natAbs_tmod]
  exact Nat.mod_lt _ (by decide)

/-- `"%ld.%03ld"` of the thousands of a `long`, and of what is left. -/
def longTime (x : Int) : TimeText :=
  timeText ((toInt64 x).tdiv 1000) ((toInt64 x).tmod 1000)
    (natAbs_tdiv_lt (natAbs_toInt64_lt x)) (natAbs_tmod_lt _)

/-- `"%lu.%03ld"` of `tmavg`. -/
def averageTime (tmavg : Int) : TimeText :=
  timeText ((toInt64 tmavg).tdiv 1000 % 2 ^ 64) ((toInt64 tmavg).tmod 1000)
    (by omega) (natAbs_tmod_lt _)

/-- `"%d.%03d"` of `ipg`. -/
def ipgTime (ipg : Int32) : TimeText := longTime ipg.toInt

/-- `"%lu.%03lu"` of `rtt`. -/
def ewmaTime (rtt : UInt64) : TimeText :=
  timeText (rtt / 8000).toNat (rtt / 8 % 1000).toNat
    (by have := (rtt / 8000).toNat_lt; omega)
    (by
      rw [UInt64.toNat_mod]
      exact Nat.mod_lt _ (by decide))

/-- The loop of `llsqrt`. -/
def llsqrtLoop (a prev x : Nat) : Nat :=
  if x < prev then llsqrtLoop a x ((x + a / x) / 2) else x
termination_by prev

def llsqrt (a : Int) : Int :=
  if 0 < a then llsqrtLoop a.toNat longMax.toNat a.toNat else a

/-- `tmvar`. -/
def statisticsVariance (rts : PingRts) : Int :=
  let total : Int := rts.nreceived + rts.nrepeats
  if rts.tsum < intMax then (rts.tsum2 * total - rts.tsum * rts.tsum).tdiv (total * total)
  else (rts.tsum2 - statisticsAverage rts * statisticsAverage rts * total).tdiv total

def rttTexts (rts : PingRts) : RttTexts where
  rttmin := longTime rts.tmin
  rttavg := averageTime (statisticsAverage rts)
  rttmax := longTime rts.tmax
  rttmdev := longTime (llsqrt (statisticsVariance rts))

/-! ## Numbers -/

/-- A number that is out of the range of `int`, or none, is converted to the least `int`. -/
def intOfFloat (negative : Bool) (num den : Nat) : Int32 :=
  let x : Int := if negative then -((num / den : Nat) : Int) else (num / den : Nat)
  if den = 0 ∨ x < -2147483648 ∨ intMax < x then Int32.minValue else Int32.ofInt x

/-- `"loss"`: the percentage as a `float`, converted to `int`. -/
def jsonLoss (rts : PingRts) : Int32 :=
  let lost : Int := rts.ntransmitted - rts.nreceived
  let converted := toDouble lost.natAbs 1
  let scaled := toDouble (converted.1 * 100) converted.2
  let sent := toDouble rts.ntransmitted 1
  let quotient := toDouble (scaled.1 * sent.2) (scaled.2 * sent.1)
  let loss := toFloat quotient.1 quotient.2
  if rts.ntransmitted = 0 then Int32.minValue else intOfFloat (lost < 0) loss.1 loss.2

/-- `"time"`. -/
def jsonTime (tv : Timespec) : Int32 :=
  Int32.ofInt (1000 * tv.tvSec + (tv.tvNsec + 500000).tdiv 1000000)

/-- The bytes of a string up to its terminator. -/
def cString (bytes : List UInt8) : CString where
  bytes := bytes.takeWhile (· ≠ 0)
  nonzero := by
    intro h
    have hall := List.all_eq_true.mp (@List.all_takeWhile _ (fun c : UInt8 => decide (c ≠ 0)) bytes)
    exact absurd (hall 0 h) (by decide)

theorem cString_of_nonzero {bytes : List UInt8} (nonzero : 0 ∉ bytes) :
    (cString bytes).bytes = bytes := by
  have hall : ∀ c ∈ bytes, decide (c ≠ 0) = true := by
    intro c hc
    apply decide_eq_true
    rintro rfl
    exact nonzero hc
  have hwhole := @List.takeWhile_append_of_pos _ _ bytes [] hall
  rwa [List.append_nil, List.takeWhile_nil, List.append_nil] at hwhole

/-- A plain text has no terminator in it. -/
theorem cString_bytes {bytes : List UInt8} (plain : bytes.all Json.isPlain = true) :
    (cString bytes).bytes = bytes :=
  cString_of_nonzero fun h => absurd (List.all_eq_true.mp plain 0 h) (by decide)

def jsonStatistics (rts : PingRts) (tv : Timespec) : JsonStatistics where
  hostname := cString rts.hostname
  transmitted := Int32.ofInt rts.ntransmitted
  received := Int32.ofInt rts.nreceived
  duplicates := Int32.ofInt rts.nrepeats
  corrupted := Int32.ofInt rts.nchecksum
  errors := Int32.ofInt rts.nerrors
  loss := jsonLoss rts
  time := jsonTime tv
  pipesize := Int32.ofInt rts.pipesize

/-- `ipg`. -/
def interPacketGap (rts : PingRts) (tv : Timespec) : Int32 :=
  Int32.ofInt ((1000000 * tv.tvSec + tv.tvNsec.tdiv 1000).tdiv ((rts.ntransmitted : Int) - 1))

/-! ## What is printed -/

/-- Are there times? -/
def hasTimes (rts : PingRts) : Bool := rts.nreceived ≠ 0 && rts.timing

/-- Is the gap between packets printed? -/
def hasGap (rts : PingRts) : Bool :=
  rts.nreceived ≠ 0 && (rts.interval = 0 || rts.optFlood || rts.optAdaptive) &&
    rts.ntransmitted > 1

/-- `ping_print_statistics`, where it is called. -/
def pingPrintStatistics (stack : CBuffer PING_JSON_MAX) (rts : PingRts) (tv : Timespec)
    (b : PingJsonBuffer) : Except JsonStop PingJsonBuffer :=
  if hasTimes rts then
    constructJsonStatistics true stack b (jsonStatistics rts tv) (rttTexts rts)
  else .ok b

def pingPrintGap (rts : PingRts) (tv : Timespec) (b : PingJsonBuffer) :
    Except JsonStop PingJsonBuffer :=
  if hasGap rts then
    constructJsonStatisticsFlood true b (hasTimes rts && rts.pipesize < 2)
      (ipgTime (interPacketGap rts tv)) (ewmaTime rts.rtt)
  else .ok b

/-- `ping_print_finish` with `-j`, and the buffer behind it. -/
def pingPrintFinish (stack : CBuffer PING_JSON_MAX) (startTime : Timespec) (rts : PingRts)
    (b : PingJsonBuffer) : Except JsonStop (List UInt8 × PingJsonBuffer) := do
  let tv := tssub rts.curTime startTime
  let b ← pingPrintStatistics stack rts tv b
  let b ← pingPrintGap rts tv b
  return printJsonStatistics true b

end Coping
