import Coping.Library.ByteOrder
import Coping.Ping.Basic

/-!
# Nonces of node information queries

`niquery_nonce` of `node_info.c` and its two entry points. The sequence number and the digest are
static there: they are kept from call to call. `md5` is the whole of the digest computation, from
the bytes that are hashed to the digest.
-/

namespace Coping.NodeInfo

abbrev IPUTILS_MD5LENGTH : Nat := 16

/-- The static variables of `niquery_nonce`. -/
structure NonceCache where
  digest : Vector UInt8 IPUTILS_MD5LENGTH := Vector.replicate IPUTILS_MD5LENGTH 0
  seq : Int := -1
  deriving DecidableEq

/-- The eight bytes of a nonce: two of the sequence number, six of the digest. -/
structure Nonce where
  seq0 : UInt8
  seq1 : UInt8
  digest : Vector UInt8 6
  deriving DecidableEq

/-- Where `niquery_nonce` is compiled and run. -/
structure NonceHost where
  order : ByteOrder
  md5 : List UInt8 → Vector UInt8 IPUTILS_MD5LENGTH
  /-- The bytes of `ni->nonce_secret`. -/
  secret : List UInt8

variable (host : NonceHost)

/-- The bytes that `memcpy` and `memcmp` take from a digest. -/
def digestHead (digest : Vector UInt8 IPUTILS_MD5LENGTH) : Vector UInt8 6 := digest.take 6

/-- The static variables behind the first branch of `niquery_nonce`. -/
def refresh (static : NonceCache) (nonce : Nonce) (fill : Bool) : NonceCache :=
  let word : Int := (host.order.load16 nonce.seq0 nonce.seq1).toNat
  if fill ∨ static.seq ≠ word ∨ static.seq = -1 then
    { digest := host.md5 (host.secret ++ [nonce.seq0, nonce.seq1]), seq := word }
  else static

/-- `niquery_nonce`: the static variables, the nonce and the result. -/
def niqueryNonce (static : NonceCache) (nonce : Nonce) (fill : Bool) :
    NonceCache × Nonce × Int :=
  let static := refresh host static nonce fill
  if fill then (static, { nonce with digest := digestHead static.digest }, 0)
  else if nonce.digest ≠ digestHead static.digest then (static, nonce, -1)
  else (static, nonce, (host.order.htons (host.order.load16 nonce.seq0 nonce.seq1)).toNat)

/-- `niquery_fill_nonce`. What was in the nonce before does not matter. -/
def niqueryFillNonce (static : NonceCache) (seq : UInt16) : NonceCache × Nonce :=
  let bytes := host.order.store16 (host.order.htons seq)
  let filled := niqueryNonce host static ⟨bytes.1, bytes.2, Vector.replicate 6 0⟩ true
  (filled.1, filled.2.1)

/-- `niquery_check_nonce`. -/
def niqueryCheckNonce (static : NonceCache) (nonce : Nonce) : NonceCache × Int :=
  let checked := niqueryNonce host static nonce false
  (checked.1, checked.2.2)

/-- The calls that share the static variables. -/
inductive NonceCall where
  | fill (seq : UInt16)
  | check (nonce : Nonce)

inductive NonceAnswer where
  | filled (nonce : Nonce)
  | checked (result : Int)
  deriving DecidableEq

def NonceCall.run (static : NonceCache) : NonceCall → NonceCache × NonceAnswer
  | .fill seq =>
      let filled := niqueryFillNonce host static seq
      (filled.1, .filled filled.2)
  | .check nonce =>
      let checked := niqueryCheckNonce host static nonce
      (checked.1, .checked checked.2)

end Coping.NodeInfo
