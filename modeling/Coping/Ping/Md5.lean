import Coping.Library.ByteOrder
import Coping.Library.CBuffer

/-!
# The message digest of node information queries

The functions of `md5.c`, on a host of either byte order. Behind `byteReverse` the bytes of the
input can be read as words; where the low byte is stored first, it does nothing. A write outside
`in` has no result. That the context is cleared in the end is left out.
-/

namespace Coping.Md5

/-- `struct IPUTILS_MD5Context`. -/
structure IputilsMd5Context where
  buf : Vector UInt32 4
  bits : Vector UInt32 2
  input : CBuffer 64

/-! ## The transform -/

/-- F1 is optimized somewhat. -/
def F1 (x y z : UInt32) : UInt32 := z ^^^ (x &&& (y ^^^ z))

def F2 (x y z : UInt32) : UInt32 := F1 z x y

def F3 (x y z : UInt32) : UInt32 := x ^^^ y ^^^ z

def F4 (x y z : UInt32) : UInt32 := y ^^^ (x ||| ~~~z)

/-- `MD5STEP`, the central step: the new value of `w`. -/
def md5step (f : UInt32 → UInt32 → UInt32 → UInt32) (w x y z data s : UInt32) : UInt32 :=
  let w := w + (f x y z + data)
  let w := w <<< s ||| w >>> (32 - s)
  w + x

/-- The steps of the transform that use `F1`. -/
def round1 (input : Vector UInt32 16) (buf : Vector UInt32 4) : Vector UInt32 4 :=
  let a := buf[0]
  let b := buf[1]
  let c := buf[2]
  let d := buf[3]
  let a := md5step F1 a b c d (input[0] + 0xd76aa478) 7
  let d := md5step F1 d a b c (input[1] + 0xe8c7b756) 12
  let c := md5step F1 c d a b (input[2] + 0x242070db) 17
  let b := md5step F1 b c d a (input[3] + 0xc1bdceee) 22
  let a := md5step F1 a b c d (input[4] + 0xf57c0faf) 7
  let d := md5step F1 d a b c (input[5] + 0x4787c62a) 12
  let c := md5step F1 c d a b (input[6] + 0xa8304613) 17
  let b := md5step F1 b c d a (input[7] + 0xfd469501) 22
  let a := md5step F1 a b c d (input[8] + 0x698098d8) 7
  let d := md5step F1 d a b c (input[9] + 0x8b44f7af) 12
  let c := md5step F1 c d a b (input[10] + 0xffff5bb1) 17
  let b := md5step F1 b c d a (input[11] + 0x895cd7be) 22
  let a := md5step F1 a b c d (input[12] + 0x6b901122) 7
  let d := md5step F1 d a b c (input[13] + 0xfd987193) 12
  let c := md5step F1 c d a b (input[14] + 0xa679438e) 17
  let b := md5step F1 b c d a (input[15] + 0x49b40821) 22
  #v[a, b, c, d]

/-- The steps that use `F2`. -/
def round2 (input : Vector UInt32 16) (buf : Vector UInt32 4) : Vector UInt32 4 :=
  let a := buf[0]
  let b := buf[1]
  let c := buf[2]
  let d := buf[3]
  let a := md5step F2 a b c d (input[1] + 0xf61e2562) 5
  let d := md5step F2 d a b c (input[6] + 0xc040b340) 9
  let c := md5step F2 c d a b (input[11] + 0x265e5a51) 14
  let b := md5step F2 b c d a (input[0] + 0xe9b6c7aa) 20
  let a := md5step F2 a b c d (input[5] + 0xd62f105d) 5
  let d := md5step F2 d a b c (input[10] + 0x02441453) 9
  let c := md5step F2 c d a b (input[15] + 0xd8a1e681) 14
  let b := md5step F2 b c d a (input[4] + 0xe7d3fbc8) 20
  let a := md5step F2 a b c d (input[9] + 0x21e1cde6) 5
  let d := md5step F2 d a b c (input[14] + 0xc33707d6) 9
  let c := md5step F2 c d a b (input[3] + 0xf4d50d87) 14
  let b := md5step F2 b c d a (input[8] + 0x455a14ed) 20
  let a := md5step F2 a b c d (input[13] + 0xa9e3e905) 5
  let d := md5step F2 d a b c (input[2] + 0xfcefa3f8) 9
  let c := md5step F2 c d a b (input[7] + 0x676f02d9) 14
  let b := md5step F2 b c d a (input[12] + 0x8d2a4c8a) 20
  #v[a, b, c, d]

/-- The steps that use `F3`. -/
def round3 (input : Vector UInt32 16) (buf : Vector UInt32 4) : Vector UInt32 4 :=
  let a := buf[0]
  let b := buf[1]
  let c := buf[2]
  let d := buf[3]
  let a := md5step F3 a b c d (input[5] + 0xfffa3942) 4
  let d := md5step F3 d a b c (input[8] + 0x8771f681) 11
  let c := md5step F3 c d a b (input[11] + 0x6d9d6122) 16
  let b := md5step F3 b c d a (input[14] + 0xfde5380c) 23
  let a := md5step F3 a b c d (input[1] + 0xa4beea44) 4
  let d := md5step F3 d a b c (input[4] + 0x4bdecfa9) 11
  let c := md5step F3 c d a b (input[7] + 0xf6bb4b60) 16
  let b := md5step F3 b c d a (input[10] + 0xbebfbc70) 23
  let a := md5step F3 a b c d (input[13] + 0x289b7ec6) 4
  let d := md5step F3 d a b c (input[0] + 0xeaa127fa) 11
  let c := md5step F3 c d a b (input[3] + 0xd4ef3085) 16
  let b := md5step F3 b c d a (input[6] + 0x04881d05) 23
  let a := md5step F3 a b c d (input[9] + 0xd9d4d039) 4
  let d := md5step F3 d a b c (input[12] + 0xe6db99e5) 11
  let c := md5step F3 c d a b (input[15] + 0x1fa27cf8) 16
  let b := md5step F3 b c d a (input[2] + 0xc4ac5665) 23
  #v[a, b, c, d]

/-- The steps that use `F4`. -/
def round4 (input : Vector UInt32 16) (buf : Vector UInt32 4) : Vector UInt32 4 :=
  let a := buf[0]
  let b := buf[1]
  let c := buf[2]
  let d := buf[3]
  let a := md5step F4 a b c d (input[0] + 0xf4292244) 6
  let d := md5step F4 d a b c (input[7] + 0x432aff97) 10
  let c := md5step F4 c d a b (input[14] + 0xab9423a7) 15
  let b := md5step F4 b c d a (input[5] + 0xfc93a039) 21
  let a := md5step F4 a b c d (input[12] + 0x655b59c3) 6
  let d := md5step F4 d a b c (input[3] + 0x8f0ccc92) 10
  let c := md5step F4 c d a b (input[10] + 0xffeff47d) 15
  let b := md5step F4 b c d a (input[1] + 0x85845dd1) 21
  let a := md5step F4 a b c d (input[8] + 0x6fa87e4f) 6
  let d := md5step F4 d a b c (input[15] + 0xfe2ce6e0) 10
  let c := md5step F4 c d a b (input[6] + 0xa3014314) 15
  let b := md5step F4 b c d a (input[13] + 0x4e0811a1) 21
  let a := md5step F4 a b c d (input[4] + 0xf7537e82) 6
  let d := md5step F4 d a b c (input[11] + 0xbd3af235) 10
  let c := md5step F4 c d a b (input[2] + 0x2ad7d2bb) 15
  let b := md5step F4 b c d a (input[9] + 0xeb86d391) 21
  #v[a, b, c, d]

def iputilsMd5Transform (buf : Vector UInt32 4) (input : Vector UInt32 16) : Vector UInt32 4 :=
  let v := round4 input (round3 input (round2 input (round1 input buf)))
  #v[buf[0] + v[0], buf[1] + v[1], buf[2] + v[2], buf[3] + v[3]]

/-! ## The context -/

/-- `byteReverse`, over the first `longs` words. -/
def byteReverse (order : ByteOrder) (longs : Nat) (bytes : List UInt8) : List UInt8 :=
  match order, longs, bytes with
  | .big, longs + 1, b0 :: b1 :: b2 :: b3 :: rest =>
      ByteOrder.big.store32 (ByteOrder.word32 b3 b2 b1 b0) ++ byteReverse .big longs rest
  | _, _, bytes => bytes

theorem length_byteReverse (order : ByteOrder) (longs : Nat) (bytes : List UInt8) :
    (byteReverse order longs bytes).length = bytes.length := by
  fun_induction byteReverse order longs bytes with
  | case1 longs b0 b1 b2 b3 rest ih =>
      simp only [List.length_append, ByteOrder.length_store32, List.length_cons, ih]
      omega
  | case2 => rfl

def reversed (order : ByteOrder) (longs : Nat) (input : CBuffer 64) : CBuffer 64 where
  bytes := byteReverse order longs input.bytes
  length_bytes := (length_byteReverse order longs input.bytes).trans input.length_bytes

/-- `(uint32_t *)ctx->in`. -/
def inputWords (order : ByteOrder) (input : CBuffer 64) : Vector UInt32 16 :=
  Vector.ofFn fun i =>
    order.load32 (input.bytes.getD (4 * i) 0) (input.bytes.getD (4 * i + 1) 0)
      (input.bytes.getD (4 * i + 2) 0) (input.bytes.getD (4 * i + 3) 0)

/-- The whole of `in` is reversed and transformed. -/
def transformInput (order : ByteOrder) (ctx : IputilsMd5Context) : IputilsMd5Context :=
  let input := reversed order 16 ctx.input
  { ctx with input := input, buf := iputilsMd5Transform ctx.buf (inputWords order input) }

def iputilsMd5Init (input : CBuffer 64) : IputilsMd5Context where
  buf := #v[0x67452301, 0xefcdab89, 0x98badcfe, 0x10325476]
  bits := #v[0, 0]
  input := input

/-- What a call is given: `buf`, and `len`, which is an `unsigned`. -/
structure Chunk where
  bytes : List UInt8
  small : bytes.length < 2 ^ 32

/-- Process data in 64-byte chunks, and handle any remaining bytes. -/
def updateBlocks (order : ByteOrder) (ctx : IputilsMd5Context) (buf : List UInt8) :
    Option IputilsMd5Context :=
  if buf.length ≥ 64 then
    (ctx.input.write 0 (buf.take 64)).bind fun input =>
      updateBlocks order (transformInput order { ctx with input := input }) (buf.drop 64)
  else (ctx.input.write 0 buf).map fun input => { ctx with input := input }
termination_by buf.length

/-- The bit count behind `len` more bytes. -/
def updatedBits (bits : Vector UInt32 2) (len : UInt32) : Vector UInt32 2 :=
  let t := bits[0]
  let low := t + len <<< 3
  -- Carry from low to high.
  #v[low, (if low < t then bits[1] + 1 else bits[1]) + len >>> 29]

/-- The number of bytes modulo 64. -/
def bytesMod64 (bits : Vector UInt32 2) : Nat := (bits[0] >>> 3 &&& 0x3f).toNat

def iputilsMd5Update (order : ByteOrder) (ctx : IputilsMd5Context) (chunk : Chunk) :
    Option IputilsMd5Context :=
  -- Bytes already in the input.
  let t := bytesMod64 ctx.bits
  let buf := chunk.bytes
  let ctx := { ctx with bits := updatedBits ctx.bits (UInt32.ofNat buf.length) }
  if t ≠ 0 then
    if buf.length < 64 - t then
      (ctx.input.write t buf).map fun input => { ctx with input := input }
    else
      (ctx.input.write t (buf.take (64 - t))).bind fun input =>
        updateBlocks order (transformInput order { ctx with input := input })
          (buf.drop (64 - t))
  else updateBlocks order ctx buf

/-- Pad out to 56 mod 64, with one lot of padding or two. -/
def padInput (order : ByteOrder) (ctx : IputilsMd5Context) : Option IputilsMd5Context := do
  let used := bytesMod64 ctx.bits
  let input ← ctx.input.write used [0x80]
  let count := 64 - 1 - used
  if count < 8 then
    let input ← input.write (used + 1) (List.replicate count 0)
    let ctx := transformInput order { ctx with input := input }
    let input ← ctx.input.write 0 (List.replicate 56 0)
    return { ctx with input := input }
  else
    let input ← input.write (used + 1) (List.replicate (count - 8) 0)
    return { ctx with input := input }

/-- The bytes of `digest`. -/
def iputilsMd5Final (order : ByteOrder) (ctx : IputilsMd5Context) : Option (List UInt8) := do
  let ctx ← padInput order ctx
  let input := reversed order 14 ctx.input
  let input ← input.write (14 * 4) (order.store32 ctx.bits[0])
  let input ← input.write (15 * 4) (order.store32 ctx.bits[1])
  let buf := iputilsMd5Transform ctx.buf (inputWords order input)
  return byteReverse order 4 (buf.toList.flatMap order.store32)

/-- A digest as its callers compute it, from the parts that they hash. -/
def hashChunks (order : ByteOrder) (input : CBuffer 64) (chunks : List Chunk) :
    Option (List UInt8) :=
  (chunks.foldlM (iputilsMd5Update order) (iputilsMd5Init input)).bind (iputilsMd5Final order)

end Coping.Md5
