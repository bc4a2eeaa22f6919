import Coping.Ping.Probe

/-!
# The loop of the checksum

`in_cksum` of `ping.c` with the accumulator that it adds up in, an `int`. Nothing negative is ever
added. A sum that is out of range has no value.
-/

namespace Coping

open OnesComplement

/-- `sum += term`. -/
def addInt (sum term : Nat) : Option Nat :=
  if sum + term ≤ 0x7FFFFFFF then some (sum + term) else none

/-- The loop over the words, and the odd byte behind it. -/
def cksumLoop : List UInt8 → Nat → Option Nat
  | [], sum => some sum
  | [last], sum => addInt sum last.toNat
  | lo :: hi :: rest, sum => (addInt sum (word lo hi)).bind (cksumLoop rest)

def inCksumLoop (addr : List UInt8) (csum : UInt16) : Option UInt16 := do
  let sum ← cksumLoop addr csum.toNat
  -- add hi 16 to low 16
  let sum ← addInt (sum >>> 16) (sum &&& 0xFFFF)
  -- add carry
  let sum ← addInt sum (sum >>> 16)
  return ~~~UInt16.ofNat sum

end Coping
