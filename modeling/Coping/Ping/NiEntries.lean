import Coping.Library.ByteOrder
import Coping.Ping.OptionWalk
import Coping.Ping.Reply

/-!
# The addresses of a node information reply

`pr_niquery_reply_addr` of `ping6_common.c` with its accesses and with what it shows, apart from the
text. Every byte is read through `read`, which has no result where there is no byte. Offsets are
from the start of the message, which has a header of sixteen bytes in front of the entries.
-/

namespace Coping

def sizeofNiHdr : Nat := 16

/-- What is printed. The flag of the header is shown apart from a message that ends too early. -/
inductive NiShown where
  | comma
  | address (field : Field)
  /-- `inet_ntop` knows no such family. -/
  | unexpected
  /-- `ping_print_error_parse`. -/
  | errorParse (reason : List UInt8)
  /-- `ping_print_truncated`. -/
  | truncated

def NiShown.tooShort : NiShown := .errorParse (CFormat.ascii "too short")

def NiShown.cutOff : NiShown := .errorParse (CFormat.ascii "truncated")

def commaShown (continued : Bool) : List NiShown := if continued then [.comma] else []

variable (read : ReadByte)

/-- `ntohs` of a field of the header. -/
def readShort (offset : Nat) : Option UInt16 := do
  let high ← read offset
  let low ← read (offset + 1)
  return ByteOrder.word16 high low

/-- The loop, up to `end`. -/
def walkEntries (af : Option Family) (aflen size : Nat) (continued : Bool) (p : Nat) :
    Option (List NiShown) :=
  if p < size then
    if p + 4 + aflen > size then some (commaShown continued ++ [.cutOff])
    else do
      let bytes ← readBytes read (p + 4) aflen
      let rest ← walkEntries af aflen size true (p + 4 + aflen)
      return commaShown continued ++
        (if af = none then .unexpected else .address ⟨p + 4, bytes⟩) :: rest
  else some []
termination_by size - p

/-- The size of an address. -/
def Family.aflen : Family → Nat
  | .inet => 4
  | .inet6 => 16

theorem Family.aflen_pos (family : Family) : 0 < family.aflen := by
  cases family <;> decide

/-- The family, from `ni_qtype`. -/
def niFamily (qtype : UInt16) : Option Family :=
  if qtype = IPUTILS_NI_QTYPE_IPV4ADDR then some .inet
  else if qtype = IPUTILS_NI_QTYPE_IPV6ADDR then some .inet6
  else none

/-- `IPUTILS_NI_IPV6_FLAG_TRUNCATE`, and the same bit for IPv4. -/
def flagShown (flags : UInt16) : List NiShown := if flags &&& 1 ≠ 0 then [.truncated] else []

def prNiqueryReplyAddr (len : Int) : Option (List NiShown) := do
  let qtype ← readShort read 4
  let af := niFamily qtype
  -- Without a family the flags are not read.
  let flags ← if af = none then some 0 else readShort read 6
  if len < 0 then return [.tooShort]
  else
    let shown ← walkEntries read af ((af.map Family.aflen).getD 0) len.toNat false sizeofNiHdr
    return shown ++ flagShown flags

end Coping
