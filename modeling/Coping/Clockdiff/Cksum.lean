import Coping.Library.ByteOrder
import Coping.Ping.Cksum

/-!
# The checksum of clockdiff

`addcarry` and `in_cksum` of `clockdiff.c`, on a little-endian machine. The carry is added
back after every word, and a word that is not aligned is put together from its bytes. The
sum is the `int` that `in_cksum` of `ping.c` uses too.
-/

namespace Coping.Clockdiff

/-- `union word`. -/
structure UnionWord where
  c0 : UInt8
  c1 : UInt8

def UnionWord.s (u : UnionWord) : UInt16 := ByteOrder.little.load16 u.c0 u.c1

def addcarry (sum : Nat) : Nat :=
  if sum &&& 0xffff0000 ≠ 0 then (sum &&& 0xffff) + 1 else sum

/-- The word at an address. -/
def wordAt (addr : Nat) (b0 b1 : UInt8) : UInt16 :=
  if addr &&& 0x1 ≠ 0 then
    -- word is not aligned
    UnionWord.s { c0 := b0, c1 := b1 }
  else ByteOrder.little.load16 b0 b1

/-- The loop over the words from an address on, and the odd byte behind it. -/
def sumWords (addr : Nat) : List UInt8 → Nat → Option Nat
  | [], sum => some sum
  | [last], sum => (addInt sum (UnionWord.s { c0 := last, c1 := 0 }).toNat).map addcarry
  | b0 :: b1 :: rest, sum =>
      (addInt sum (wordAt addr b0 b1).toNat).bind fun sum =>
        sumWords (addr + 2) rest (addcarry sum)

/-- `in_cksum` of the bytes from an address on. -/
def inCksum (addr : Nat) (bytes : List UInt8) : Option UInt16 :=
  (sumWords addr bytes 0).map fun sum => ~~~UInt16.ofNat (sum &&& 0xffff)

end Coping.Clockdiff
