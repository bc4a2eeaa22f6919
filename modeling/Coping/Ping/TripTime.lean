import Coping.Ping.Statistics

/-!
# The time of a reply

The part of `gather_statistics` from the label `restamp` on, once more, with every signed operation
checked: where one overflows there is no result. The subtractions are counted.
-/

namespace Coping

open CInt

def tvsubChecked (out sub : Timeval) : Option Timeval := do
  let usec ← checkedLong (out.tvUsec - sub.tvUsec)
  if usec < 0 then
    let sec ← checkedLong (out.tvSec - 1)
    let sec ← checkedLong (sec - sub.tvSec)
    return { tvSec := sec, tvUsec := usec + 1000000 }
  else
    let sec ← checkedLong (out.tvSec - sub.tvSec)
    return { tvSec := sec, tvUsec := usec }

/-- `triptime`, and how many times `tvsub` was called. The clock is read again only without
`opt_latency`, and sets it. -/
def restamp (optLatency : Bool) (tv stamp now : Timeval) : Option (Int × Nat) := do
  let diff := clampUsec (← tvsubChecked tv stamp)
  if diff.tvSec > TV_SEC_MAX_VAL then return (0, 1)
  else if diff.tvSec < 0 then
    if optLatency then return (0, 1)
    else
      let again ← restamp true now stamp now
      return (again.1, again.2 + 1)
  else
    let time ← checkedLong (diff.tvSec * 1000000 + diff.tvUsec)
    return (time, 1)
termination_by (!optLatency).toNat
decreasing_by
  next hlatency =>
    rw [Bool.eq_false_of_not_eq_true hlatency]
    exact Nat.zero_lt_one

end Coping
