import Coping.Ping.Options

/-!
# The address that was looked up last

`_pr_addr` of `ping.c` and its two entry points. The text, and the address that it is the text of,
are static there: they are kept from call to call. The resolver is a function of the address.
-/

namespace Coping.AddressCache

open CFormat

abbrev sizeofSockaddrStorage : Nat := 128

abbrev sizeofBuffer : Nat := 4096

/-- The bytes of a socket address, the two of its family first. -/
@[ext]
structure SockAddr where
  bytes : List UInt8
  family : 2 ≤ bytes.length
  fits : bytes.length ≤ sizeofSockaddrStorage

/-- What `getnameinfo` leaves in an array of `NI_MAXHOST` bytes. It is empty when there is no
name. -/
structure HostName where
  text : CString
  fits : text.bytes.length < NI_MAXHOST

def HostName.empty : HostName := ⟨⟨[], by decide⟩, by decide⟩

/-- `getnameinfo`, with and without `NI_NUMERICHOST`. -/
structure Resolver where
  numericHost : SockAddr → HostName
  host : SockAddr → HostName

/-- The fields of `struct ping_rts` that are read. -/
structure LookupOptions where
  exiting : Bool := false
  optForceLookup : Bool := false
  optNumeric : Bool := false

/-- The static variables of `_pr_addr`. -/
structure LastLookup where
  buffer : List UInt8 := []
  lastSa : List UInt8 := List.replicate sizeofSockaddrStorage 0
  lastSalen : Nat := 0

variable (rts : LookupOptions) (resolver : Resolver)

def asksName (resolveName : Bool) : Bool :=
  !rts.exiting && resolveName && (rts.optForceLookup || !rts.optNumeric)

/-- The text for the buffer. -/
def addressLine (sa : SockAddr) (resolveName : Bool) : List UInt8 :=
  let address := (resolver.numericHost sa).text.bytes
  let name := (if asksName rts resolveName then resolver.host sa else .empty).text.bytes
  if name ≠ [] ∧ name.take NI_MAXHOST ≠ address.take NI_MAXHOST then
    name ++ ascii " (" ++ address ++ ascii ")"
  else address

/-- `_pr_addr`: the static variables and the text that is returned. -/
def prAddrWith (static : LastLookup) (sa : SockAddr) (resolveName : Bool) :
    LastLookup × List UInt8 :=
  if sa.bytes.length = static.lastSalen ∧ sa.bytes = static.lastSa.take sa.bytes.length then
    (static, static.buffer)
  else
    -- `snprintf` leaves room for the terminator.
    let buffer := (addressLine rts resolver sa resolveName).take (sizeofBuffer - 1)
    ({ buffer := buffer
       lastSa := sa.bytes ++ static.lastSa.drop sa.bytes.length
       lastSalen := sa.bytes.length }, buffer)

def prAddr (static : LastLookup) (sa : SockAddr) : LastLookup × List UInt8 :=
  prAddrWith rts resolver static sa true

def prRawAddr (static : LastLookup) (sa : SockAddr) : LastLookup × List UInt8 :=
  prAddrWith rts resolver static sa false

end Coping.AddressCache
