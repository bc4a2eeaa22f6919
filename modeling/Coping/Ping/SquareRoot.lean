import Coping.Ping.Output

/-!
# The square root, pass by pass

`llsqrt` of `ping_output.c` in the arithmetic of `long long`: a division by zero and a sum
that is out of range have no result, and neither has a loop that needs more passes than it
is given.
-/

namespace Coping

open CInt

/-- The `while` loop. -/
def llsqrtPasses (a : Int) : Nat → Int → Int → Option Int
  | 0, _, _ => none
  | passes + 1, prev, x =>
      if x < prev then
        if x = 0 then none
        else (checkedLong (x + a.tdiv x)).bind fun sum => llsqrtPasses a passes x (sum.tdiv 2)
      else some x

def llsqrtWithin (passes : Nat) (a : Int) : Option Int :=
  if a > 0 then llsqrtPasses a passes longMax a else some a

end Coping
