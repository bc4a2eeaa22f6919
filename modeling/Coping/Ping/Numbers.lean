import Coping.Library.CBuffer
import Coping.Library.CFormat
import Coping.Library.CNumber

/-!
# Numbers of options

`parseflow` and `parsetos` of `ping.c`, the arguments of `-F` and of `-Q`. A number is hexadecimal
behind `0x`. `error` ends the program.
-/

namespace Coping.Numbers

open CFormat CInt CNumber

def IPV6_FLOWINFO_FLOWLABEL : BitVec 64 := 0xfffff#64

def TOS_MAX : Int := 255

/-- The status and the message of `error`. -/
structure Exit where
  status : Int
  message : List UInt8
  deriving DecidableEq

/-- The base, and what `strtoul` and `strtol` get. -/
def hexOrDecimal (str : CString) : Nat × List UInt8 :=
  if str.bytes.take 2 = [0x30, 0x78] ∨ str.bytes.take 2 = [0x30, 0x58] then
    (16, str.bytes.drop 2)
  else (10, str.bytes)

def parseflow (str : CString) : Except Exit Int :=
  let text := hexOrDecimal str
  let read := strtoul text.1 text.2
  -- The sign of an `int` is extended.
  let val := BitVec.ofInt 64 (toInt32 read.1)
  if read.2 ≠ [] then .error ⟨2, ascii "bad value for flowinfo: " ++ str.bytes⟩
  else if val &&& ~~~IPV6_FLOWINFO_FLOWLABEL ≠ 0 then
    .error ⟨2, ascii "flow value is greater than 20 bits: " ++ str.bytes⟩
  else .ok (toInt32 val.toNat)

def parsetos (str : CString) : Except Exit Int :=
  let text := hexOrDecimal str
  let read := strtol text.1 text.2
  let tos := toInt32 read.1
  if read.2 ≠ [] then .error ⟨2, ascii "bad TOS value: " ++ str.bytes⟩
  else if tos > TOS_MAX then
    .error ⟨2, ascii "the decimal value of TOS bits must be in range 0-255: " ++ decimal tos⟩
  else .ok tos

end Coping.Numbers
