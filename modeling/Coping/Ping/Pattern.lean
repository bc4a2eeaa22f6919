import Coping.Library.CBuffer
import Coping.Library.CFormat
import Coping.Library.CInt
import Coping.Ping.Basic

/-!
# The pattern of `-p`

`fill` of `ping_common.c`: the hexadecimal digits of the argument, and the loop that copies
their bytes over the packet buffer behind the header. The buffer is filled before the length
of the payload is known.
-/

namespace Coping

open CInt CFormat

def isxdigit (c : UInt8) : Bool :=
  (0x30 ≤ c && c ≤ 0x39) || (0x61 ≤ c && c ≤ 0x66) || (0x41 ≤ c && c ≤ 0x46)

/-- The value of a hexadecimal digit. -/
def xdigitValue (c : UInt8) : Nat :=
  if c ≤ 0x39 then c.toNat - 0x30 else if c ≤ 0x46 then c.toNat - 0x37 else c.toNat - 0x57

/-- The conversions `%2x` of `sscanf`, as many as the format has, on hexadecimal digits. The
last of an odd number of digits is converted alone. -/
def scanPattern : Nat → List UInt8 → List UInt8
  | 0, _ => []
  | _ + 1, [] => []
  | _ + 1, [c] => [UInt8.ofNat (xdigitValue c)]
  | n + 1, c :: d :: text =>
      UInt8.ofNat (16 * xdigitValue c + xdigitValue d) :: scanPattern n text

inductive FillStop where
  /-- `ping_error` with a status of 2: what follows the digits. -/
  | badDigit (text : List UInt8)
  /-- A write outside of the buffer. -/
  | outside

section

variable {capacity : Nat}

/-- The loop over `kk`. -/
def fillLoop (pat : List UInt8) (limit : Nat) (packet : CBuffer capacity) (kk : Nat) :
    Option (CBuffer capacity) :=
  if kk ≤ limit ∧ 0 < pat.length then
    (packet.write (8 + kk) pat).bind fun packet => fillLoop pat limit packet (kk + pat.length)
  else some packet
termination_by limit + 1 - kk

/-- The buffer and what is printed. -/
structure FilledPacket (capacity : Nat) where
  packet : CBuffer capacity
  printed : List UInt8

/-- The bound of the loop is computed as `unsigned`. -/
def fill (optQuiet : Bool) (patp : List UInt8) (packet : CBuffer capacity) (packetSize : Nat) :
    Except FillStop (FilledPacket capacity) :=
  if ¬patp.all isxdigit then .error (.badDigit (patp.dropWhile isxdigit))
  else
    let pat := scanPattern 16 patp
    match fillLoop pat (toUInt32 (packetSize - (8 + pat.length))).toNat packet 0 with
    | none => .error .outside
    | some filled =>
        let shown := ((filled.bytes.drop 8).take pat.length).flatMap fun c => based 16 2 c.toNat
        .ok
          { packet := filled
            printed := if optQuiet then [] else ascii "PATTERN: 0x" ++ shown ++ ascii "\n" }

end

end Coping
