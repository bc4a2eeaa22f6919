import Coping.Library.BlockHash
import Coping.Library.ByteOrder
import Mathlib.Analysis.SpecialFunctions.Trigonometric.Basic

/-!
# The MD5 message digest

The algorithm as RFC 1321 states it: the message is padded to whole blocks of 64 bytes, each
block is compressed in 64 operations, and the additive constant of an operation is taken from
the sine. Words are stored with their low byte first.
-/

namespace MessageDigest

/-- The words A, B, C and D. -/
abbrev Chain := Vector UInt32 4

/-- The words of a block. -/
abbrev Block := Vector UInt32 16

def initial : Chain :=
  Vector.ofFn fun i => [0x67452301, 0xefcdab89, 0x98badcfe, 0x10325476].getD i 0

/-! ## The operations -/

def F (x y z : UInt32) : UInt32 := (x &&& y) ||| (~~~x &&& z)

def G (x y z : UInt32) : UInt32 := (x &&& z) ||| (y &&& ~~~z)

def H (x y z : UInt32) : UInt32 := x ^^^ y ^^^ z

def I (x y z : UInt32) : UInt32 := y ^^^ (x ||| ~~~z)

def rotateLeft (x s : UInt32) : UInt32 := x <<< s ||| x >>> (32 - s)

/-- The auxiliary function of the `i`-th operation. -/
def auxiliary (i : Nat) : UInt32 → UInt32 → UInt32 → UInt32 :=
  match i / 16 with
  | 0 => F
  | 1 => G
  | 2 => H
  | _ => I

/-- The word of the block that goes into the `i`-th operation. -/
def wordIndex (i : Nat) : Fin 16 :=
  Fin.ofNat 16 <|
    match i / 16 with
    | 0 => i
    | 1 => 1 + 5 * i
    | 2 => 5 + 3 * i
    | _ => 7 * i

def rotations (i : Nat) : Vector UInt32 4 :=
  match i / 16 with
  | 0 => #v[7, 12, 17, 22]
  | 1 => #v[5, 9, 14, 20]
  | 2 => #v[4, 11, 16, 23]
  | _ => #v[6, 10, 15, 21]

def rotation (i : Nat) : UInt32 := (rotations i).get (Fin.ofNat 4 i)

/-- The integer part of 4294967296 times the sine of `i + 1` radians, without its sign. -/
noncomputable def sineConstant (i : Nat) : UInt32 :=
  UInt32.ofNat ⌊2 ^ 32 * |Real.sin (i + 1)|⌋₊

/-- `f` makes a new word of the four, which comes in for A, and they change their places. -/
def exchange (v : Chain) (f : UInt32 → UInt32 → UInt32 → UInt32 → UInt32) : Chain :=
  #v[v.get 3, f (v.get 0) (v.get 1) (v.get 2) (v.get 3), v.get 1, v.get 2]

noncomputable def operation (block : Block) (v : Chain) (i : Nat) : Chain :=
  exchange v fun a b c d =>
    b + rotateLeft (a + auxiliary i b c d + block.get (wordIndex i) + sineConstant i) (rotation i)

noncomputable def compress (v : Chain) (block : Block) : Chain :=
  v.zipWith (· + ·) ((List.range 64).foldl (operation block) v)

/-! ## Messages -/

def blockWords (bytes : List UInt8) : Block :=
  Vector.ofFn fun i =>
    ByteOrder.little.load32 (bytes.getD (4 * i) 0) (bytes.getD (4 * i + 1) 0)
      (bytes.getD (4 * i + 2) 0) (bytes.getD (4 * i + 3) 0)

/-- The bytes of a number of 64 bits. -/
def lengthBytes (x : Nat) : List UInt8 :=
  ByteOrder.little.store32 (UInt32.ofNat x) ++ ByteOrder.little.store32 (UInt32.ofNat (x / 2 ^ 32))

/-- The number of zero bytes that are appended to a message of this length. -/
def zeros (length : Nat) : Nat := (119 - length % 64) % 64

/-- A one bit, zero bits up to 56 bytes modulo 64, and the length in bits. -/
def padded (message : List UInt8) : List UInt8 :=
  message ++ 0x80 :: List.replicate (zeros message.length) 0 ++
    lengthBytes (8 * message.length)

noncomputable def absorb (v : Chain) (bytes : List UInt8) : Chain :=
  BlockHash.absorb 64 (fun v block => compress v (blockWords block)) v bytes

def output (v : Chain) : List UInt8 := v.toList.flatMap ByteOrder.little.store32

noncomputable def digest (message : List UInt8) : List UInt8 :=
  output (absorb initial (padded message))

theorem length_digest (message : List UInt8) : (digest message).length = 16 := by
  rw [digest, output, List.length_flatMap]
  simp only [ByteOrder.length_store32, List.map_const', List.sum_replicate, Vector.length_toList]
  rfl

end MessageDigest
